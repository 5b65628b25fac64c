/-
  Who has which instance while threads are under way.

  Every instance that was made is in one place at every moment: it waits in its pool, is in
  the hands of a thread, is held, or has been lost or dropped. So no two of those who have
  one have the same, in whatever order the threads do their steps. When no thread is under
  way, what waits, what is leased and what was discarded is what was made.
-/
import Mathlib.Data.List.Nodup
import PathSieve.Proofs.Pool.Steps

namespace PathSieve

open List

variable {μ σ : Type}

/-- Different ids make different names. -/
theorem Lending.instanceName_injective : Function.Injective instanceName := by
  intro a b h
  have hdigits : Nat.toDigits 10 a = Nat.toDigits 10 b :=
    String.ofList_inj.mp ((String.append_right_inj _).mp h)
  rw [← Nat.ofDigitChars_ten_toDigits (n := a), hdigits, Nat.ofDigitChars_ten_toDigits]

namespace ThreadedSystem

/-- The instances that somebody has: those that wait in a pool, those in the hands of
    threads, and those held. -/
def possessed (s : ThreadedSystem μ σ) : List (Instance σ) :=
  s.world.pools.flatMap Pool.idle ++ s.threads.flatMap Stage.hands ++
    s.ledger.held.map Holding.inst

/-- Is no thread under way? -/
def Quiet (s : ThreadedSystem μ σ) : Prop :=
  ∀ st ∈ s.threads, st = .ready

/-- Nobody has what another one has. -/
structure Exclusive (s : ThreadedSystem μ σ) : Prop where
  /-- What somebody has was made, and neither somebody else has it nor is it gone. -/
  placed : s.possessed.map Instance.identity ++ s.ledger.lost ++ s.ledger.dropped ~ s.ledger.made
  ids : (s.ledger.made.map Identity.id).Nodup
  names : (s.ledger.made.map Identity.name).Nodup
  possessed : (s.possessed.map Instance.id).Nodup
  /-- What waits in a pool belongs to it and is untainted. -/
  idle : ∀ pool ∈ s.world.pools, pool.Proper
  leased : ∀ pool ∈ s.world.pools, 0 ≤ pool.leased
  settled : s.Quiet → ∀ pool ∈ s.world.pools,
    (pool.idle.length : Int) + pool.leased + pool.discarded = pool.created

variable {s : ThreadedSystem μ σ} {pool : Pool μ σ}

namespace Books

/-- A counter of a pool is the one that its id is looked up for. -/
theorem tally_eq (h : s.Books) (hpool : pool ∈ s.world.pools) (counter : Pool μ σ → Int) :
    s.tally counter pool.id = counter pool := by
  obtain ⟨rest, hperm, hother, -⟩ := h.numbered.exists_perm_settle hpool
  rw [tally, Pool.tally_perm hperm, Pool.tally_cons, if_pos rfl, Pool.tally_of_ne hother,
    Int.add_zero]

/-- Of all that waits, what is of a pool waits in it. -/
theorem countP_idle (h : s.Books) (hpool : pool ∈ s.world.pools) :
    (s.world.pools.flatMap (·.idle.map Instance.identity)).countP (·.poolId = pool.id) =
      pool.idle.length := by
  obtain ⟨rest, hperm, hother, -⟩ := h.numbered.exists_perm_settle hpool
  have hown : (pool.idle.map Instance.identity).countP (·.poolId = pool.id) = pool.idle.length := by
    rw [countP_map]
    exact countP_eq_length.mpr fun inst hi => decide_eq_true (h.proper.pools _ hpool inst hi).1
  have hrest : (rest.flatMap (·.idle.map Instance.identity)).countP (·.poolId = pool.id) = 0 := by
    refine countP_eq_zero.mpr fun b hb => ?_
    obtain ⟨other, hmem, hb⟩ := mem_flatMap.mp hb
    obtain ⟨inst, hi, rfl⟩ := mem_map.mp hb
    have hid : inst.poolId = other.id :=
      (h.proper.pools other (hperm.mem_iff.mpr (mem_cons_of_mem _ hmem)) inst hi).1
    simpa [Instance.identity, hid] using hother other hmem
  rw [(hperm.flatMap_right _).countP_eq, flatMap_cons, countP_append, hown, hrest, Nat.add_zero]

theorem leased_eq (h : s.Books) (hpool : pool ∈ s.world.pools) :
    pool.leased = s.ledger.out pool.id := by
  rw [← h.leased, h.tally_eq hpool]

theorem discarded_eq (h : s.Books) (hpool : pool ∈ s.world.pools) :
    pool.discarded = s.ledger.droppedOf pool.id := by
  have := h.discarded pool.id
  rw [h.tally_eq hpool] at this
  exact Int.natCast_inj.mp this

theorem created_eq (h : s.Books) (hquiet : s.Quiet) (hpool : pool ∈ s.world.pools) :
    pool.created = s.ledger.madeBy pool.id := by
  have hnone : s.uncounted pool.id = 0 := by
    have hnil : s.threads.flatMap (·.uncounted.map Instance.identity) = [] :=
      flatMap_eq_nil_iff.mpr fun st hst => by simp [hquiet st hst]
    rw [uncounted, hnil, countP_nil]
  have := h.created pool.id
  rw [h.tally_eq hpool, hnone] at this
  exact Int.natCast_inj.mp (by simpa using this)

theorem balanced (h : s.Books) (hquiet : s.Quiet) (hpool : pool ∈ s.world.pools) :
    (pool.idle.length : Int) + pool.leased + pool.discarded = pool.created := by
  have hnil : s.threads.flatMap (·.hands.map Instance.identity) = [] :=
    flatMap_eq_nil_iff.mpr fun st hst => by simp [hquiet st hst]
  -- of the instances of this pool, each is idle, out or dropped
  have hplaced := h.placed (·.poolId = pool.id)
  simp only [ThreadedSystem.placed, hnil, append_nil, Ledger.placed, countP_append,
    h.countP_idle hpool] at hplaced
  have hout : s.ledger.out pool.id =
      (s.ledger.held.map (·.inst.identity)).countP (·.poolId = pool.id)
      + s.ledger.lost.countP (·.poolId = pool.id) := countP_append
  rw [h.leased_eq hpool, h.discarded_eq hpool, h.created_eq hquiet hpool, hout, Ledger.droppedOf,
    Ledger.madeBy, ← hplaced]
  omega

theorem nodup_ids (h : s.Books) : (s.ledger.made.map Identity.id).Nodup := by
  refine nodup_iff_count_le_one.mpr fun n => ?_
  have hissued := h.issued n
  rw [ThreadedSystem.issued, count_append] at hissued
  have hrange : (range s.world.nextInstanceId).count n ≤ 1 :=
    nodup_iff_count_le_one.mp nodup_range n
  exact Nat.le_trans (Nat.le_trans (Nat.le_add_right _ _) hissued) hrange

theorem nodup_names (h : s.Books) : (s.ledger.made.map Identity.name).Nodup := by
  have hnames : s.ledger.made.map Identity.name =
      (s.ledger.made.map Identity.id).map Lending.instanceName := by
    rw [map_map]
    exact map_congr_left h.named
  rw [hnames]
  exact h.nodup_ids.map Lending.instanceName_injective

theorem placed_perm (h : s.Books) :
    s.possessed.map Instance.identity ++ s.ledger.lost ++ s.ledger.dropped ~ s.ledger.made := by
  refine perm_iff_count.mpr fun b => ?_
  have hplaced := h.placed (· == b)
  simp only [ThreadedSystem.placed, Ledger.placed, countP_append, ← count_eq_countP] at hplaced
  simp only [ThreadedSystem.possessed, map_append, map_flatMap, count_append, map_map]
  simp only [Function.comp_def]
  omega

theorem exclusive (h : s.Books) : s.Exclusive where
  placed := h.placed_perm
  ids := h.nodup_ids
  names := h.nodup_names
  possessed := by
    have hids := (h.placed_perm.map Identity.id).nodup_iff.mpr h.nodup_ids
    rw [map_append, map_append, append_assoc, map_map] at hids
    exact (nodup_append.mp hids).1
  idle := h.proper.pools
  leased pool hpool := h.leased_eq hpool ▸ Int.natCast_nonneg _
  settled hquiet _ hpool := h.balanced hquiet hpool

end Books

/-- Whatever any number of threads do at any number of pools, and in whatever order their
    steps come, nobody ever has what another one has, no count of leases falls below zero,
    and the counters add up when all are done. -/
theorem exclusive_run [Module μ σ] [Backend σ] (count : Nat) (turns : List (Turn μ)) :
    ((ofThreads count : ThreadedSystem μ σ).run turns).Exclusive :=
  ((books_ofThreads count).run turns).exclusive

/-- Two threads acquire at once. The second one has drawn the second id, is the first to be
    done, and gives back what it got while the first one is still under way. -/
example :
    let s : ThreadedSystem GuestModule Guest := (ofThreads 2).run
      [.openPool ⟨1, 1⟩ {}, .start 0 1 .acquire, .start 1 1 .acquire, .go 0, .go 1, .go 1, .go 1,
        .go 1, .go 0, .start 1 1 (.release 0), .go 0, .go 1, .go 0]
    s.possessed.map Instance.id = [2, 1] ∧ s.world.pools.map Pool.stats = [⟨1, 1, 2, 0⟩] := by
  decide

end ThreadedSystem

end PathSieve

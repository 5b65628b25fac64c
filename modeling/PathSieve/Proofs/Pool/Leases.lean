/-
  What a pool has lent out.

  A pool lends the instances of given identities (`Lends`) if these and the idle ones belong to
  it, no two of them with one id, if nothing tainted is idle, and if its counters say the
  same: there is a lease for each identity, and every instance made is idle, lent or discarded.
  An `acquire` puts the identity of the instance among those lent, or changes nothing there; a
  `release` takes it out, and it does not matter whether the instance is kept.
-/
import PathSieve.Proofs.Pool.Acts

namespace PathSieve

open List

variable {μ σ : Type}

/-- One element of a list whose elements stand for lists, and what is left beside it when it
    stays or is replaced. -/
theorem exists_perm_flatMap_set {α β : Type} (f : α → List β) {l : List α} {i : Nat} {a : α}
    (h : l[i]? = some a) :
    ∃ rest, l.flatMap f ~ f a ++ rest ∧ ∀ b, (l.set i b).flatMap f ~ f b ++ rest := by
  obtain ⟨rest, hperm, -, hset⟩ := exists_perm_set h
  exact ⟨rest.flatMap f, hperm.flatMap_right f, fun b => (hset b).flatMap_right f⟩

/-- Are these instances of one pool, with ids of their own that have been drawn? -/
structure Identity.Apart (poolId nextId : Nat) (bs : List Identity) : Prop where
  own : ∀ b ∈ bs, b.poolId = poolId
  drawn : ∀ b ∈ bs, b.id < nextId
  nodup : (bs.map Identity.id).Nodup

namespace Identity.Apart

variable {poolId nextId nextId' : Nat} {bs bs' : List Identity}

theorem nil : Apart poolId nextId [] :=
  ⟨fun _ hb => absurd hb not_mem_nil, fun _ hb => absurd hb not_mem_nil, nodup_nil⟩

theorem sublist (h : Apart poolId nextId bs) (hs : bs' <+ bs) : Apart poolId nextId bs' :=
  ⟨fun b hb => h.own b (hs.subset hb), fun b hb => h.drawn b (hs.subset hb),
    h.nodup.sublist (hs.map _)⟩

theorem perm (h : Apart poolId nextId bs) (hp : bs ~ bs') : Apart poolId nextId bs' :=
  ⟨fun b hb => h.own b (hp.mem_iff.mpr hb), fun b hb => h.drawn b (hp.mem_iff.mpr hb),
    (hp.map _).nodup_iff.mp h.nodup⟩

theorem mono (h : Apart poolId nextId bs) (hle : nextId ≤ nextId') : Apart poolId nextId' bs :=
  ⟨h.own, fun b hb => Nat.lt_of_lt_of_le (h.drawn b hb) hle, h.nodup⟩

/-- The next id is new. -/
theorem cons (h : Apart poolId nextId bs) (name : String) :
    Apart poolId (nextId + 1) (⟨nextId, poolId, name⟩ :: bs) := by
  refine ⟨forall_mem_cons.mpr ⟨rfl, h.own⟩,
    forall_mem_cons.mpr ⟨Nat.lt_succ_self _, fun b hb => Nat.lt_succ_of_lt (h.drawn b hb)⟩,
    nodup_cons.mpr ⟨fun hmem => ?_, h.nodup⟩⟩
  obtain ⟨b, hb, heq⟩ := mem_map.mp hmem
  exact Nat.ne_of_lt (h.drawn b hb) heq

end Identity.Apart

namespace Lending

/-- The instances of these identities are all that a pool has lent out, and its counters say so. -/
structure Lends (l : Lending μ σ) (out : List Identity) : Prop where
  apart : Identity.Apart l.pool.id l.nextId (l.pool.idle.map Instance.identity ++ out)
  untainted : ∀ inst ∈ l.pool.idle, inst.tainted = false
  leased_eq : l.pool.leased = out.length
  created_eq : l.pool.created = l.pool.idle.length + out.length + l.pool.discarded

variable {l l' : Lending μ σ} {out out' : List Identity} {inst : Instance σ}

/-- A new pool has lent nothing. -/
theorem lends_new (poolId nextId : Nat) (module : μ) (config : Config) :
    Lends (σ := σ) ⟨{ id := poolId, module := module, config := config }, nextId⟩ [] :=
  ⟨.nil, fun _ hi => absurd hi not_mem_nil, rfl, rfl⟩

namespace Lends

theorem perm (h : l.Lends out) (hp : out ~ out') : l.Lends out' :=
  ⟨h.apart.perm (hp.append_left _), h.untainted, by rw [h.leased_eq, hp.length_eq],
    by rw [h.created_eq, hp.length_eq]⟩

/-- Other pools draw ids. -/
theorem draw (h : l.Lends out) (count : Nat) : Lends { l with nextId := l.nextId + count } out :=
  ⟨h.apart.mono (Nat.le_add_right _ _), h.untainted, h.leased_eq, h.created_eq⟩

/-- An instance that a pool hands out is one of those lent then, and is untainted. -/
theorem acquire_ok [Module μ σ] (h : l.Lends out) (hacq : l.acquire = (.ok inst, l')) :
    inst.tainted = false ∧ l'.Lends (inst.identity :: out) := by
  have hleased := h.leased_eq
  have hcreated := h.created_eq
  have hapart := h.apart
  have huntainted := h.untainted
  rcases l.acquire_cases with ⟨i, rest, hidle, heq⟩ | ⟨guest, module, hidle, -, heq⟩ |
      ⟨e, module, -, -, heq⟩ <;> rw [heq] at hacq
  · obtain ⟨hi, rfl⟩ := Prod.mk.inj hacq
    obtain rfl := Except.ok.inj hi
    rw [hidle] at hapart hcreated huntainted
    obtain ⟨hinst, hrest⟩ := forall_mem_cons.mp huntainted
    refine ⟨hinst, hapart.perm perm_middle.symm, hrest, ?_, ?_⟩
    · simp [Pool.countLeased, hleased]
    · simp only [Pool.countLeased, length_cons] at hcreated ⊢
      omega
  · obtain ⟨hi, rfl⟩ := Prod.mk.inj hacq
    obtain rfl := Except.ok.inj hi
    rw [hidle] at hapart hcreated
    refine ⟨rfl, ?_, huntainted, ?_, ?_⟩
    · simpa [Pool.countLeased, Pool.countCreated, hidle, Instance.identity] using
        hapart.cons (instanceName l.nextId)
    · simp [Pool.countLeased, Pool.countCreated, hleased]
    · simp only [Pool.countLeased, Pool.countCreated, hidle, length_cons, length_nil] at hcreated ⊢
      omega
  · cases (Prod.mk.inj hacq).1

/-- A pool that hands nothing out has lent what it had. -/
theorem acquire_error [Module μ σ] {e : Error} (h : l.Lends out)
    (hacq : l.acquire = (.error e, l')) : l'.Lends out := by
  rcases l.acquire_cases with ⟨i, rest, -, heq⟩ | ⟨guest, module, -, -, heq⟩ |
      ⟨e', module, -, -, heq⟩ <;> rw [heq] at hacq
  · cases (Prod.mk.inj hacq).1
  · cases (Prod.mk.inj hacq).1
  · obtain ⟨-, rfl⟩ := Prod.mk.inj hacq
    exact ⟨h.apart.mono (Nat.le_succ _), h.untainted, h.leased_eq, h.created_eq⟩

theorem own (h : l.Lends (inst.identity :: out)) : inst.poolId = l.pool.id :=
  h.apart.own inst.identity (by simp)

/-- An instance that comes back is lent no more, whether it is kept or not. -/
theorem release (h : l.Lends (inst.identity :: out)) : (l.release inst).Lends out := by
  have hleased := h.leased_eq
  have hcreated := h.created_eq
  rw [length_cons] at hleased hcreated
  unfold Lending.release Pool.release
  rw [if_neg (not_not_intro h.own)]
  cases ht : inst.tainted with
  | true =>
    refine ⟨h.apart.sublist ((sublist_cons_self _ _).append_left _), h.untainted, ?_, ?_⟩
    · simp [Pool.countReturned, Pool.countDiscarded, hleased]
    · simp only [if_true, Pool.countReturned, Pool.countDiscarded]
      omega
  | false =>
    refine ⟨h.apart.perm perm_middle, forall_mem_cons.mpr ⟨ht, h.untainted⟩, ?_, ?_⟩
    · simp [Pool.countReturned, Pool.pushIdle, hleased]
    · simp only [Bool.false_eq_true, if_false, Pool.countReturned, Pool.pushIdle, length_cons]
      omega

end Lends

end Lending

end PathSieve

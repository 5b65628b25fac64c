/-
  The taint is exact, one-way and final.

  An instance is tainted if and only if the history of its id has a call that trapped or a
  taint on purpose: no code that a guest returns, no failed allocation and no refused handle
  comes into it. Once that has happened nobody will ever see the instance without the taint,
  none of its entry points is reached again, no pool hands it out, and its own pool counts it
  as discarded when it comes back. This is so for every module, of which calls may also
  unwind.
-/
import PathSieve.Proofs.Pool.Descent

namespace PathSieve

open List

variable {μ σ : Type}

namespace PoolSystem

/-- Does a history say that the instance with an id has been tainted? -/
def Condemned (past : List (Nat × Incident)) (id : Nat) : Prop :=
  ∃ i, (id, i) ∈ past ∧ i.taints = true

/-- The pool that an act gives an instance to, and the instance as it comes there. -/
def givesBack? (m : PoolSystem μ σ) : Act μ → Option (Nat × Instance σ)
  | .poolOp (.drop place) =>
    match m.ledger.held[place]? with
    | some ⟨some pool, inst⟩ => some (pool, inst)
    | _ => none
  | .poolOp (.discard place) =>
    match m.ledger.held[place]? with
    | some ⟨some pool, inst⟩ => some (pool, inst.taint)
    | _ => none
  | .poolOp (.release place pool) =>
    match m.ledger.held[place]? with
    | some ⟨none, inst⟩ => some (pool, inst)
    | _ => none
  | _ => none

variable {m : PoolSystem μ σ} {inst : Instance σ} {past : List (Nat × Incident)}

theorem Condemned.append {id : Nat} (h : Condemned past id) (later : List (Nat × Incident)) :
    Condemned (past ++ later) id := by
  obtain ⟨i, hi, ht⟩ := h
  exact ⟨i, mem_append_left _ hi, ht⟩

variable [Module μ σ] [Backend σ]

theorem condemned_iff_any {acts : List (Act μ)} {id : Nat} :
    Condemned (m.history acts) id ↔ (m.historyOf id acts).any Incident.taints = true := by
  unfold Condemned historyOf Incident.about
  simp only [any_eq_true, mem_filterMap, Option.ite_none_right_eq_some, Option.some.injEq]
  constructor
  · rintro ⟨i, hi, ht⟩
    exact ⟨i, ⟨(id, i), hi, rfl, rfl⟩, ht⟩
  · rintro ⟨i, ⟨e, he, hid, rfl⟩, ht⟩
    exact ⟨e.2, hid ▸ he, ht⟩

omit [Module μ σ] [Backend σ] in
/-- The system before anything is done in it has its books right. -/
theorem books_empty : ({} : PoolSystem μ σ).alone.Books :=
  ThreadedSystem.books_ofThreads 1

/-- An instance has the taint if and only if its history says so. -/
theorem tainted_iff_condemned (acts : List (Act μ))
    (h : inst ∈ (({} : PoolSystem μ σ).run acts).possessed) :
    inst.tainted = true ↔ Condemned (({} : PoolSystem μ σ).history acts) inst.id := by
  obtain ⟨start, hstart | ⟨-, hnew⟩, htrail⟩ := exists_trail books_empty acts inst h
  · cases hstart
  · rw [condemned_iff_any, htrail.tainted_eq, hnew.untainted, Bool.false_or]

/-- What has tainted an instance is the last that is heard of it. -/
theorem pairwise_historyOf (hb : m.alone.Books) (id : Nat) (acts : List (Act μ)) :
    (m.historyOf id acts).Pairwise fun i j => i.taints = true → ∀ c, j ≠ .crossed c := by
  induction acts using List.reverseRecOn with
  | nil => exact .nil
  | append_singleton acts a ih =>
    rw [historyOf_append, historyOf_act]
    split
    · next w c hw =>
      split
      · next hid =>
        obtain ⟨start, -, htrail⟩ := exists_trail hb acts w (mem_of_worked? hw)
        exact hid ▸ (htrail.snoc c).pairwise
      · rwa [append_nil]
    · rwa [append_nil]

/-- A pool hands out an instance that waits in it, or one that it has just made. -/
theorem held_acquire {pool : Nat}
    (h : (m.act (.poolOp (.acquire pool))).ledger.held = ⟨some pool, inst⟩ :: m.ledger.held) :
    (∃ p ∈ m.world.pools, inst ∈ p.idle) ∨ m.world.nextInstanceId ≤ inst.id := by
  have hne {h' : Holding σ} (heq : m.ledger.held = h' :: m.ledger.held) : False := by
    simpa using congrArg List.length heq
  unfold act poolOp at h
  dsimp only at h
  unfold acquire at h
  cases hl : m.world.lending? pool with
  | none => exact (hne (by simpa only [hl] using h)).elim
  | some l =>
    obtain ⟨hmem, -, hnext⟩ := World.lending?_eq_some hl
    rw [hl] at h
    dsimp only at h
    rcases l.acquire_cases with ⟨i, rest, hi, heq⟩ | ⟨guest, module, hi, -, heq⟩ |
      ⟨e, module, hi, -, heq⟩ <;> rw [heq] at h
    · have hheld : (⟨some pool, i⟩ : Holding σ) = ⟨some pool, inst⟩ := by
        simpa [hi, Ledger.hold] using h
      obtain ⟨-, rfl⟩ := Holding.mk.inj hheld
      exact .inl ⟨l.pool, hmem, hi ▸ mem_cons_self⟩
    · obtain rfl : _ = inst := by simpa [hi, Ledger.hold, Ledger.make] using h
      exact .inr (Nat.le_of_eq hnext.symm)
    · exact (hne h).elim

/-- The instance that comes back tainted to its own pool is counted and not kept. -/
theorem lending?_of_givesBack? {a : Act μ} {pool : Nat} {l : Lending μ σ}
    (h : m.givesBack? a = some (pool, inst)) (ht : inst.tainted = true) (hown : inst.poolId = pool)
    (hl : m.world.lending? pool = some l) :
    (m.act a).world.lending? pool =
      some { l with pool := l.pool.countReturned.countDiscarded 1 } := by
  obtain ⟨-, hid, -⟩ := World.lending?_eq_some hl
  have hback : l.pool.release inst = l.pool.countReturned.countDiscarded 1 := by
    unfold Pool.release
    rw [if_neg (not_not_intro (hown.trans hid.symm)), if_pos ht]
  have hrelease (place : Nat) : (m.release place pool inst).world.lending? pool =
      some { l with pool := l.pool.countReturned.countDiscarded 1 } := by
    unfold release
    rw [hl]
    dsimp only
    rw [Lending.release, hback]
    exact World.lending?_settle hl rfl
  unfold givesBack? at h
  split at h
  · next place =>
    split at h
    · next hh =>
      obtain ⟨rfl, rfl⟩ := Prod.mk.inj (Option.some.inj h)
      simp only [act, poolOp, hh]
      exact hrelease place
    · cases h
  · next place =>
    split at h
    · next own w hh =>
      obtain ⟨rfl, rfl⟩ := Prod.mk.inj (Option.some.inj h)
      have hdiscard : l.pool.discard w = l.pool.countReturned.countDiscarded 1 := hback
      simp only [act, poolOp, hh, discard, hl, hdiscard]
      exact World.lending?_settle hl rfl
    · cases h
  · next place pool' =>
    split at h
    · next hh =>
      obtain ⟨rfl, rfl⟩ := Prod.mk.inj (Option.some.inj h)
      simp only [act, poolOp, hh]
      exact hrelease place
    · cases h
  · cases h

/-- What the taint is worth in a system with a past. -/
structure TaintIsFinal (m : PoolSystem μ σ) (past : List (Nat × Incident)) : Prop where
  /-- An instance is tainted if a call on it has trapped or it has been tainted on purpose, and
      for no other reason. -/
  exact : ∀ inst ∈ m.possessed, inst.tainted = true ↔ Condemned past inst.id
  /-- So an operation leaves the taint as it is unless it is the taint or one of its calls traps,
      whatever else it comes to. -/
  spared : ∀ (inst : Instance σ) c, c.isTaint = false →
    (∀ x ∈ inst.heard c, x.ending ≠ .trapped) → (inst.work c).tainted = inst.tainted
  /-- Once an instance has been tainted nothing is heard of its guest any more. -/
  silent : ∀ id more, (Incident.about id (past ++ m.history more)).Pairwise fun i j =>
    i.taints = true → ∀ c, j ≠ .crossed c
  /-- Every call is turned away then, as one that broke. -/
  refused : ∀ inst ∈ m.possessed, Condemned past inst.id → ∀ (t : Touch) (c : EntryCall),
    t.call? inst.id = some c →
      t.action.perform inst =
        (.error (.error (.transport c.entry (.tainted inst.name))), inst)
  /-- Whoever has the instance later has it tainted. -/
  lasting : ∀ more, ∀ inst ∈ (m.run more).possessed, Condemned past inst.id →
    inst.tainted = true
  /-- No pool hands it out any more. -/
  keptBack : ∀ more pool inst,
    ((m.run more).act (.poolOp (.acquire pool))).ledger.held =
      ⟨some pool, inst⟩ :: (m.run more).ledger.held → ¬ Condemned past inst.id
  /-- When it comes back its own pool counts it as discarded and does not keep it. -/
  discarded : ∀ a pool inst l, m.givesBack? a = some (pool, inst) → inst.tainted = true →
    inst.poolId = pool → m.world.lending? pool = some l →
      ∃ l', (m.act a).world.lending? pool = some l' ∧ l'.pool.idle = l.pool.idle ∧
        l'.pool.leased = l.pool.leased - 1 ∧ l'.pool.discarded = l.pool.discarded + 1

/-- Whatever is done with any number of pools and instances over any modules, the taint is
    exact, one-way and final. -/
theorem taintIsFinal_run (acts : List (Act μ)) :
    TaintIsFinal (({} : PoolSystem μ σ).run acts) (({} : PoolSystem μ σ).history acts) where
  exact inst hi := tainted_iff_condemned acts hi
  spared inst c hc hnone := by
    rw [Instance.tainted_work, hc, Bool.or_false, any_eq_false.mpr, Bool.or_false]
    exact fun x hx => by simpa using hnone x hx
  silent id more := history_append _ acts more ▸ pairwise_historyOf books_empty id (acts ++ more)
  refused inst hi hcond t c hcall :=
    Instance.perform_touch_of_tainted ((tainted_iff_condemned acts hi).mpr hcond) hcall
  lasting more inst hi hcond := by
    rw [← run_append] at hi
    rw [tainted_iff_condemned _ hi, history_append]
    exact hcond.append _
  keptBack more pool inst hheld hcond := by
    have hbooks := books_run (books_run books_empty acts) more
    rw [← run_append] at hheld hbooks
    rcases held_acquire hheld with ⟨p, hp, hi⟩ | hnext
    · -- what waits in a pool is untainted
      have htainted := (tainted_iff_condemned _
        (mem_append_left _ (mem_flatMap.mpr ⟨p, hp, hi⟩))).mpr
        (history_append _ acts more ▸ hcond.append _)
      rw [(hbooks.proper.pools p hp inst hi).2] at htainted
      cases htainted
    · -- what has just been made has no history
      obtain ⟨i, hi, -⟩ := hcond
      have hlt := mem_history_lt books_empty hi
      have hle := le_nextInstanceId_run (({} : PoolSystem μ σ).run acts) more
      rw [← run_append] at hle
      exact absurd (Nat.lt_of_lt_of_le hlt (Nat.le_trans hle hnext)) (Nat.lt_irrefl _)
  discarded a pool inst l hgives ht hown hl :=
    ⟨_, lending?_of_givesBack? hgives ht hown hl, rfl, rfl, rfl⟩

end PoolSystem

end PathSieve

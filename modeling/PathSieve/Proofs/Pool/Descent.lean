/-
  Where the instances of a pool system come from.

  No instance comes out of nowhere. One that somebody has after a run was possessed before
  it or has been made meanwhile, and what the history says of its id is all that has happened
  to it since (`exists_trail`). So what operations leave true of an instance need only be shown
  for instances that have just been made.
-/
import Mathlib.Data.List.Induction
import PathSieve.Proofs.Pool.Acts

namespace PathSieve

open List

variable {μ σ : Type}

namespace PoolSystem

variable [Module μ σ] [Backend σ] {m : PoolSystem μ σ} {inst : Instance σ}

theorem books_act (h : m.alone.Books) (a : Act μ) : (m.act a).alone.Books := by
  cases a with
  | poolOp d =>
    obtain ⟨turns, hturns⟩ := exists_run_poolOp m d
    exact hturns ▸ h.run turns
  | instanceOp place c =>
    exact h.fair (ThreadedSystem.fair_modify place fun held => Instance.identity_work held.inst c)
      h.numbered

theorem books_run (h : m.alone.Books) (acts : List (Act μ)) : (m.run acts).alone.Books := by
  induction acts generalizing m with
  | nil => exact h
  | cons a acts ih => exact ih (books_act h a)

omit [Backend σ] in
theorem le_nextInstanceId_acquire (m : PoolSystem μ σ) (pool : Nat) :
    m.world.nextInstanceId ≤ (m.acquire pool).world.nextInstanceId := by
  unfold acquire
  split
  · exact Nat.le_refl _
  · next l hl =>
    have hnext : m.world.nextInstanceId ≤ l.nextId :=
      Nat.le_of_eq (World.lending?_eq_some hl).2.2.symm
    rcases l.acquire_cases with ⟨i, rest, -, heq⟩ | ⟨guest, module, -, -, heq⟩ |
      ⟨e, module, -, -, heq⟩ <;> rw [heq]
    · exact hnext
    · exact Nat.le_succ_of_le hnext
    · exact Nat.le_succ_of_le hnext

omit [Backend σ] [Module μ σ] in
/-- What draws no id leaves the next one. -/
theorem nextInstanceId_release (m : PoolSystem μ σ) (place pool : Nat) (w : Instance σ) :
    (m.release place pool w).world.nextInstanceId = m.world.nextInstanceId := by
  unfold release
  split
  · rfl
  · next l hl => exact (World.lending?_eq_some hl).2.2

omit [Backend σ] [Module μ σ] in
theorem nextInstanceId_discard (m : PoolSystem μ σ) (place pool : Nat) (w : Instance σ) :
    (m.discard place pool w).world.nextInstanceId = m.world.nextInstanceId := by
  unfold discard
  split
  · rfl
  · next l hl => exact (World.lending?_eq_some hl).2.2

omit [Backend σ] [Module μ σ] in
theorem nextInstanceId_shrinkTo (m : PoolSystem μ σ) (pool keep : Nat) :
    (m.shrinkTo pool keep).world.nextInstanceId = m.world.nextInstanceId := by
  unfold shrinkTo
  split
  · rfl
  · next l hl => exact (World.lending?_eq_some hl).2.2

theorem le_nextInstanceId_act (m : PoolSystem μ σ) (a : Act μ) :
    m.world.nextInstanceId ≤ (m.act a).world.nextInstanceId := by
  cases a with
  | instanceOp place c => exact Nat.le_refl _
  | poolOp d =>
    unfold act poolOp
    cases d with
    | acquire pool => exact le_nextInstanceId_acquire m pool
    | drop place =>
      dsimp only
      split
      · exact Nat.le_of_eq (nextInstanceId_release ..).symm
      · exact Nat.le_refl _
    | discard place =>
      dsimp only
      split
      · exact Nat.le_of_eq (nextInstanceId_discard ..).symm
      · exact Nat.le_refl _
    | release place pool =>
      dsimp only
      split
      · exact Nat.le_of_eq (nextInstanceId_release ..).symm
      · exact Nat.le_refl _
    | shrinkTo pool keep => exact Nat.le_of_eq (nextInstanceId_shrinkTo m pool keep).symm
    | _ => exact Nat.le_refl _

theorem le_nextInstanceId_run (m : PoolSystem μ σ) (acts : List (Act μ)) :
    m.world.nextInstanceId ≤ (m.run acts).world.nextInstanceId := by
  induction acts generalizing m with
  | nil => exact Nat.le_refl _
  | cons a acts ih => exact Nat.le_trans (le_nextInstanceId_act m a) (ih (m.act a))

omit [Backend σ] [Module μ σ] in
/-- What is possessed has an id that has been drawn. -/
theorem id_lt_nextInstanceId (h : m.alone.Books) (hi : inst ∈ m.possessed) :
    inst.id < m.world.nextInstanceId := by
  have hplaced : inst.identity ∈ m.ledger.made := by
    refine h.placed_perm.mem_iff.mp ?_
    rw [possessed_alone]
    exact mem_append_left _ (mem_append_left _ (mem_map_of_mem hi))
  have hcount : 0 < m.alone.issued.count inst.id :=
    count_pos_iff.mpr (mem_append_left _ (mem_map_of_mem (f := Identity.id) hplaced))
  exact mem_range.mp (count_pos_iff.mp (Nat.lt_of_lt_of_le hcount (h.issued inst.id)))

theorem run_append (m : PoolSystem μ σ) (acts acts' : List (Act μ)) :
    m.run (acts ++ acts') = (m.run acts).run acts' :=
  foldl_append

theorem history_append (m : PoolSystem μ σ) (acts acts' : List (Act μ)) :
    m.history (acts ++ acts') = m.history acts ++ (m.run acts).history acts' := by
  induction acts generalizing m with
  | nil => rfl
  | cons a acts ih => simp only [cons_append, history, ih, append_assoc, run, foldl_cons]

theorem historyOf_append (m : PoolSystem μ σ) (id : Nat) (acts acts' : List (Act μ)) :
    m.historyOf id (acts ++ acts') =
      m.historyOf id acts ++ (m.run acts).historyOf id acts' := by
  simp only [historyOf, history_append, Incident.about, filterMap_append]

/-- An act enters the history of the one instance that it is about. -/
theorem historyOf_act (m : PoolSystem μ σ) (id : Nat) (a : Act μ) :
    m.historyOf id [a] =
      match m.worked? a with
      | some (w, c) => if w.id = id then w.incidents c else []
      | none => [] := by
  simp only [historyOf, Incident.about, history, append_nil, incidents]
  cases m.worked? a with
  | none => rfl
  | some r =>
    obtain ⟨w, c⟩ := r
    by_cases hid : w.id = id
    · simp [filterMap_map, hid]
    · simp [filterMap_map, hid]

theorem mem_history_lt (hb : m.alone.Books) {acts : List (Act μ)} {e : Nat × Incident}
    (h : e ∈ m.history acts) : e.1 < (m.run acts).world.nextInstanceId := by
  induction acts generalizing m with
  | nil => cases h
  | cons a acts ih =>
    rcases mem_append.mp h with h | h
    · unfold incidents at h
      split at h
      · next w c hw =>
        obtain ⟨i, -, rfl⟩ := mem_map.mp h
        exact Nat.lt_of_lt_of_le (id_lt_nextInstanceId hb (mem_of_worked? hw))
          (le_nextInstanceId_run m (a :: acts))
      · cases h
    · exact ih (books_act hb a) h

theorem historyOf_eq_nil (hb : m.alone.Books) {id : Nat} {acts : List (Act μ)}
    (h : (m.run acts).world.nextInstanceId ≤ id) : m.historyOf id acts = [] := by
  refine filterMap_eq_nil_iff.mpr fun e he => if_neg ?_
  exact Nat.ne_of_lt (Nat.lt_of_lt_of_le (mem_history_lt hb he) h)

/-- Whoever has an instance after a run has one that was possessed before it or has been made
    meanwhile, and that since has come to what the history of its id says. -/
theorem exists_trail (hb : m.alone.Books) (acts : List (Act μ)) :
    ∀ inst ∈ (m.run acts).possessed, ∃ start,
      (start ∈ m.possessed ∨ (m.world.nextInstanceId ≤ start.id ∧ start.New μ)) ∧
        Instance.Trail start (m.historyOf inst.id acts) inst := by
  induction acts using List.reverseRecOn with
  | nil => exact fun inst hi => ⟨inst, .inl hi, .nil⟩
  | append_singleton acts a ih =>
    intro inst hi
    rw [run_append] at hi
    rw [historyOf_append, historyOf_act]
    have hbooks := books_run hb acts
    rcases mem_possessed_act hbooks hi with ⟨hmem, hne⟩ | ⟨w, c, hw, rfl⟩ | ⟨hw, hnext, hnew⟩
    · obtain ⟨start, hstart, htrail⟩ := ih inst hmem
      refine ⟨start, hstart, ?_⟩
      split
      · next w c hw => rwa [if_neg (hne w c hw), append_nil]
      · rwa [append_nil]
    · obtain ⟨start, hstart, htrail⟩ := ih w (mem_of_worked? hw)
      have hid : (w.work c).id = w.id := congrArg Identity.id (Instance.identity_work w c)
      rw [hw, hid]
      simp only [if_true]
      exact ⟨start, hstart, htrail.snoc c⟩
    · refine ⟨inst, .inr ⟨Nat.le_trans (le_nextInstanceId_run m acts) hnext, hnew⟩, ?_⟩
      rw [hw, historyOf_eq_nil hb hnext]
      exact .nil

end PoolSystem

end PathSieve

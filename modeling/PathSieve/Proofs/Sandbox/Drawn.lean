/-
  Handles are not drawn twice.

  A table draws its handles in order, so as long as it has not come to the last one every
  entry lies below the next handle (`Drawn`), and what is once known of a handle stays known
  (`Files`): rule sets that are added get other handles, and an erased handle is not drawn
  again.

  After the last handle a table begins again with the first. The handles it goes through then
  are all different, so as long as there are more handles than entries it comes to one that
  is in nobody's hands (`Sound.not_mem_insert`).
-/
import Mathlib.Data.List.Find
import Mathlib.Data.List.Nodup
import PathSieve.Proofs.Sandbox.Sound

namespace PathSieve.RuleTable

variable {t : RuleTable} {count handle : Nat} {rs : RuleSet} {entry : Option RuleSet}

/-- No more than `count` handles have been drawn, and the next one has not. -/
structure Drawn (t : RuleTable) (count : Nat) : Prop where
  next_le : t.next ≤ count + 1
  lt_next : ∀ e ∈ t.entries, e.1 < t.next

/-- A handle has been drawn, and this is what is under it. -/
structure Files (t : RuleTable) (handle : Nat) (entry : Option RuleSet) : Prop where
  lt_next : handle < t.next
  get?_eq : t.get? handle = entry

theorem drawn_empty : Drawn empty 0 :=
  ⟨by decide, fun _ h => absurd h List.not_mem_nil⟩

theorem get?_insert (t : RuleTable) (rs : RuleSet) (handle : Nat) :
    (t.insert rs).2.get? handle = if (t.insert rs).1 = handle then some rs else t.get? handle := by
  unfold insert get?
  simp only [List.find?_cons]
  by_cases h : unused t.entries t.next t.entries.length = handle
  · simp [h]
  · simp [h]

theorem get?_erase (t : RuleTable) (gone handle : Nat) :
    (t.erase gone).get? handle = if gone = handle then none else t.get? handle := by
  unfold erase get?
  rw [List.find?_filter]
  by_cases h : gone = handle
  · subst h
    simp
  · rw [if_neg h, List.find?_congr fun e _ => ?_]
    by_cases he : e.1 = handle
    · simp [he, Ne.symm h]
    · simp [he]

namespace Drawn

/-- The next handle is free. -/
theorem fst_insert (h : t.Drawn count) (rs : RuleSet) : (t.insert rs).1 = t.next := by
  have hfree : (t.entries.any fun e => e.1 = t.next) = false := by
    refine List.any_eq_false.mpr fun e he => ?_
    simpa using Nat.ne_of_lt (h.lt_next e he)
  unfold RuleTable.insert
  dsimp only
  cases t.entries.length with
  | zero => rfl
  | succ n => rw [unused, hfree, if_neg Bool.false_ne_true]

theorem next_insert (h : t.Drawn count) (hcount : count + 1 < maxHandle) (rs : RuleSet) :
    (t.insert rs).2.next = t.next + 1 := by
  have hfst : unused t.entries t.next t.entries.length = t.next := h.fst_insert rs
  have := h.next_le
  unfold RuleTable.insert
  dsimp only
  rw [hfst, after, if_neg (by omega)]

theorem insert (h : t.Drawn count) (hcount : count + 1 < maxHandle) (rs : RuleSet) :
    (t.insert rs).2.Drawn (count + 1) := by
  have hnext := h.next_insert hcount rs
  have hle := h.next_le
  refine ⟨by omega, fun e he => ?_⟩
  rw [hnext]
  rcases List.mem_cons.mp he with rfl | he
  · exact Nat.lt_succ_of_le (Nat.le_of_eq (h.fst_insert rs))
  · exact Nat.lt_succ_of_lt (h.lt_next e he)

theorem erase (h : t.Drawn count) (gone : Nat) : (t.erase gone).Drawn count :=
  ⟨h.next_le, fun e he => h.lt_next e (List.mem_filter.mp he).1⟩

theorem mono {count' : Nat} (h : t.Drawn count) (hle : count ≤ count') : t.Drawn count' :=
  ⟨Nat.le_trans h.next_le (Nat.succ_le_succ hle), h.lt_next⟩

/-- What is added is known under the handle that it gets. -/
theorem files_insert (h : t.Drawn count) (hcount : count + 1 < maxHandle) (rs : RuleSet) :
    (t.insert rs).2.Files (t.insert rs).1 (some rs) := by
  refine ⟨?_, by rw [get?_insert, if_pos rfl]⟩
  rw [h.next_insert hcount rs, h.fst_insert rs]
  exact Nat.lt_succ_self _

end Drawn

namespace Files

/-- What is added gets another handle. -/
theorem insert (hf : t.Files handle entry) (h : t.Drawn count) (hcount : count + 1 < maxHandle)
    (rs : RuleSet) : (t.insert rs).2.Files handle entry := by
  have hlt := hf.lt_next
  refine ⟨?_, ?_⟩
  · rw [h.next_insert hcount rs]
    exact Nat.lt_succ_of_lt hlt
  · rw [get?_insert, h.fst_insert rs, if_neg (by omega), hf.get?_eq]

theorem erase (hf : t.Files handle entry) (gone : Nat) :
    (t.erase gone).Files handle (if gone = handle then none else entry) :=
  ⟨hf.lt_next, by rw [get?_erase, hf.get?_eq]⟩

end Files

/-! ## Round and round -/

/-- The handles that are passed over are those that come next. -/
theorem iterate_after {handle : Nat} (h : 1 ≤ handle ∧ handle ≤ maxHandle) (i : Nat) :
    after^[i] handle = (handle - 1 + i) % maxHandle + 1 := by
  induction i generalizing handle with
  | zero =>
    rw [Nat.add_zero, Nat.mod_eq_of_lt (by omega)]
    exact (Nat.sub_add_cancel h.1).symm
  | succ i ih =>
    rw [Function.iterate_succ_apply, ih after_bounds, after]
    by_cases hlast : maxHandle ≤ handle
    · rw [if_pos hlast]
      simp only [maxHandle] at h hlast ⊢
      omega
    · rw [if_neg hlast, Nat.add_sub_cancel, show handle - 1 + (i + 1) = handle + i by omega]

/-- If the search ends at a handle in use, so were all that it has gone through. -/
theorem mem_of_unused_mem {entries : List (Nat × RuleSet)} {handle tries : Nat}
    (h : unused entries handle tries ∈ entries.map Prod.fst) {i : Nat} (hi : i ≤ tries) :
    after^[i] handle ∈ entries.map Prod.fst := by
  induction tries generalizing handle i with
  | zero => rwa [Nat.le_zero.mp hi]
  | succ tries ih =>
    rw [unused] at h
    by_cases hused : (entries.any fun e => e.1 = handle) = true
    · rw [if_pos hused] at h
      cases i with
      | zero => simpa using hused
      | succ i => exact ih h (Nat.le_of_succ_le_succ hi)
    · rw [if_neg hused] at h
      simp only [List.any_eq_true, decide_eq_true_eq] at hused
      obtain ⟨e, he, heq⟩ := List.mem_map.mp h
      exact absurd ⟨e, he, heq⟩ hused

/-- As long as there are more handles than entries, the search ends at a handle that is not
    in use. -/
theorem Sound.not_mem_insert (hs : t.Sound) (hsize : t.size < maxHandle) (rs : RuleSet) :
    (t.insert rs).1 ∉ t.entries.map Prod.fst := by
  intro hused
  have hround := iterate_after ⟨hs.one_le_next, hs.next_le⟩
  have hnodup : ((List.range (t.size + 1)).map (after^[·] t.next)).Nodup := by
    refine List.Nodup.map_on (fun i hi j hj heq => ?_) List.nodup_range
    rw [List.mem_range] at hi hj
    rw [hround, hround] at heq
    simp only [maxHandle] at hsize heq
    omega
  have hsubset : (List.range (t.size + 1)).map (after^[·] t.next) ⊆ t.entries.map Prod.fst := by
    intro handle hmem
    obtain ⟨i, hi, rfl⟩ := List.mem_map.mp hmem
    exact mem_of_unused_mem hused (Nat.le_of_lt_succ (List.mem_range.mp hi))
  have hle := hnodup.length_le_of_subset hsubset
  simp only [List.length_map, List.length_range, size] at hle
  omega

/-- What is added and then erased has left nothing behind. -/
theorem Sound.entries_erase_insert (hs : t.Sound) (hsize : t.size < maxHandle) (rs : RuleSet) :
    ((t.insert rs).2.erase (t.insert rs).1).entries = t.entries := by
  have hfree := hs.not_mem_insert hsize rs
  have hkeep : ∀ e ∈ t.entries, e.1 ≠ (t.insert rs).1 := fun e he heq =>
    hfree (List.mem_map.mpr ⟨e, he, heq⟩)
  rw [RuleTable.erase, entries_insert, List.filter_cons_of_neg (by simp)]
  exact List.filter_eq_self.mpr fun e he => decide_eq_true (hkeep e he)

end PathSieve.RuleTable

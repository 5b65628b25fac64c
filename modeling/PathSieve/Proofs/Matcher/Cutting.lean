/-
  Cutting a list into chunks loses nothing.

  The chunks of a list, one after the other, are the list (`flatten_ofList`), and results
  of chunks make one result exactly when none of them has failed (`merge_eq_ok_iff`). Else
  every failure is reported once, in the order of the chunks (`reports_merge`).
-/
import PathSieve.Proofs.Matcher.Ranges

namespace PathSieve.Chunks

variable {α : Type}

/-- The failed results, where the first has the place `n`. -/
def failuresFrom (n : Nat) : List (Except Error (List α)) → List (Nat × Error)
  | [] => []
  | .error e :: results => (n, e) :: failuresFrom (n + 1) results
  | .ok _ :: results => failuresFrom (n + 1) results

theorem failures_eq_failuresFrom (results : List (Except Error (List α))) :
    failures results = failuresFrom 0 results := by
  unfold failures
  generalize 0 = n
  induction results generalizing n with
  | nil => rfl
  | cons r results ih =>
    rw [List.zipIdx_cons]
    cases r with
    | error e => exact congrArg ((n, e) :: ·) (ih (n + 1))
    | ok k => exact ih (n + 1)

theorem failuresFrom_eq_nil_iff {results : List (Except Error (List α))} (n : Nat) :
    failuresFrom n results = [] ↔ ∃ ks : List (List α), results = ks.map .ok := by
  induction results generalizing n with
  | nil => exact ⟨fun _ => ⟨[], rfl⟩, fun _ => rfl⟩
  | cons r results ih =>
    cases r with
    | error e =>
      constructor
      · intro h
        simp [failuresFrom] at h
      · intro hparts
        obtain ⟨ks, hks⟩ := hparts
        cases ks <;> simp at hks
    | ok k =>
      rw [failuresFrom, ih]
      constructor
      · intro hparts
        obtain ⟨ks, rfl⟩ := hparts
        exact ⟨k :: ks, rfl⟩
      · intro hparts
        obtain ⟨ks, hks⟩ := hparts
        cases ks with
        | nil => simp at hks
        | cons k' ks =>
          rw [List.map_cons, List.cons.injEq] at hks
          exact ⟨ks, hks.2⟩

theorem elements_map_ok (ks : List (List α)) : elements (ks.map .ok) = ks.flatten := by
  induction ks with
  | nil => rfl
  | cons k ks ih =>
    show k ++ elements (ks.map .ok) = _
    rw [ih, List.flatten_cons]

/-- Results make one result exactly when none has failed. -/
theorem merge_eq_ok_iff {results : List (Except Error (List α))} {kept : List α} :
    merge results = .ok kept ↔
      ∃ ks : List (List α), results = ks.map .ok ∧ kept = ks.flatten := by
  have hnil : failures results = [] ↔ ∃ ks : List (List α), results = ks.map .ok := by
    rw [failures_eq_failuresFrom, failuresFrom_eq_nil_iff]
  unfold merge
  cases hf : failures results with
  | nil =>
    obtain ⟨ks, rfl⟩ := hnil.mp hf
    rw [elements_map_ok]
    constructor
    · intro h
      exact ⟨ks, rfl, (Except.ok.inj h).symm⟩
    · intro hparts
      obtain ⟨ks', hks, rfl⟩ := hparts
      rw [(List.map_inj_right fun _ _ h => Except.ok.inj h).mp hks]
  | cons f fs =>
    constructor
    · intro h
      simp at h
    · intro hparts
      obtain ⟨ks, hks, -⟩ := hparts
      rw [hnil.mpr ⟨ks, hks⟩] at hf
      simp at hf

theorem mem_failures_iff {results : List (Except Error (List α))} {i : Nat} {e : Error} :
    (i, e) ∈ failures results ↔ results[i]? = some (.error e) := by
  unfold failures
  rw [List.mem_filterMap]
  constructor
  · rintro ⟨⟨r, j⟩, hmem, heq⟩
    rw [List.mem_zipIdx_iff_getElem?] at hmem
    cases r with
    | ok k => cases heq
    | error e' =>
      obtain ⟨rfl, rfl⟩ := Prod.mk.inj (Option.some.inj heq)
      exact hmem
  · intro h
    exact ⟨(.error e, i), List.mem_zipIdx_iff_getElem?.mpr h, rfl⟩

/-- The failures stand in the order of their places, and none stands there twice. -/
theorem pairwise_failures (results : List (Except Error (List α))) :
    (failures results).Pairwise fun f g => f.1 < g.1 := by
  have hplaces : results.zipIdx.Pairwise fun r s => r.2 < s.2 := by
    rw [← List.pairwise_map, List.zipIdx_map_snd]
    exact List.pairwise_lt_range'
  refine hplaces.filterMap _ fun r s hlt f hf g hg => ?_
  rcases r with ⟨_ | _, i⟩ <;> rcases s with ⟨_ | _, j⟩ <;> simp at hf hg
  rw [← hf, ← hg]
  exact hlt

/-- An outcome says of each chunk what has come of it: it is what all chunks have kept, in
    order, if none has failed, and else it is every failure with its place. -/
structure Reports (results : List (Except Error (List α))) (outcome : Except Error (List α)) :
    Prop where
  ok_iff : ∀ kept, outcome = .ok kept ↔ ∃ ks : List (List α), results = ks.map .ok ∧
    kept = ks.flatten
  failed : ∀ e, .error e ∈ results → ∃ entries, outcome = .error (.parallel entries) ∧
    entries.Pairwise (fun f g => f.1 < g.1) ∧
    ∀ i e, (i, e) ∈ entries ↔ results[i]? = some (.error e)

theorem reports_merge (results : List (Except Error (List α))) :
    Reports results (merge results) := by
  refine ⟨fun kept => merge_eq_ok_iff, fun e he => ⟨failures results, ?_,
    pairwise_failures results, fun _ _ => mem_failures_iff⟩⟩
  obtain ⟨i, hi⟩ := List.mem_iff_getElem?.mp he
  have hmem := mem_failures_iff.mpr hi
  unfold merge
  cases hf : failures results with
  | nil =>
    rw [hf] at hmem
    cases hmem
  | cons f fs => rfl

end PathSieve.Chunks

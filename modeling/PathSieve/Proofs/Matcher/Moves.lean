/-
  The moves of a crew.

  Over any module, a move changes one worker that has not finished, or nothing; so who has
  finished has finished for good, and when all moves are made everybody has
  (`hasFinished_runAll`). Through every move the pool lends what it has lent to others and
  the instances at which workers are (`Crew.Lends`). At the end no worker is at one, and the
  pool has lent what it had before, however each worker has ended (`Lends.lends_runAll`).
-/
import PathSieve.Matcher.Parallel
import PathSieve.Proofs.Pool.Leases

namespace PathSieve

variable {μ σ : Type}

namespace Crew

variable [Backend σ] [Module μ σ] {rules : String} {c : Crew μ σ}

/-! ## All workers come to their end -/

/-- Has a worker finished? -/
def HasFinished (c : Crew μ σ) (i : Nat) : Prop :=
  ∃ result, c.workers[i]? = some (.finished result)

/-- A move changes one worker that has not finished, or nothing. -/
theorem apply_cases (rules : String) (c : Crew μ σ) (m : Move) :
    c.apply rules m = c ∨
      ∃ (i : Nat) (w : Worker σ) (l' : Lending μ σ),
        (∀ result, c.workers[i]? ≠ some (.finished result)) ∧
          c.apply rules m = ⟨c.workers.set i w, l'⟩ := by
  cases m with
  | start i =>
    show c.start i = c ∨ ∃ j w l', _ ∧ c.start i = _
    unfold Crew.start
    split
    · next chunk hw =>
      have hne : ∀ result, c.workers[i]? ≠ some (.finished result) := by simp [hw]
      right
      split
      · exact ⟨i, _, _, hne, rfl⟩
      · exact ⟨i, _, _, hne, rfl⟩
    · exact Or.inl rfl
  | finish i =>
    show c.finish rules i = c ∨ ∃ j w l', _ ∧ c.finish rules i = _
    unfold Crew.finish
    split
    · next chunk inst hw =>
      have hne : ∀ result, c.workers[i]? ≠ some (.finished result) := by simp [hw]
      exact Or.inr ⟨i, _, _, hne, rfl⟩
    · exact Or.inl rfl

theorem length_apply (c : Crew μ σ) (m : Move) :
    (c.apply rules m).workers.length = c.workers.length := by
  rcases apply_cases rules c m with h | ⟨i, w, l', -, h⟩
  · rw [h]
  · rw [h]
    exact List.length_set

/-- What every move keeps is kept to the end. -/
theorem foldl_of_apply (P : Crew μ σ → Prop) (hP : ∀ c m, P c → P (c.apply rules m))
    (ms : List Move) (h : P c) : P (ms.foldl (Crew.apply rules) c) := by
  induction ms generalizing c with
  | nil => exact h
  | cons m ms ih => exact ih (hP c m h)

theorem length_foldl (ms : List Move) (c : Crew μ σ) :
    (ms.foldl (Crew.apply rules) c).workers.length = c.workers.length :=
  foldl_of_apply (fun c' => c'.workers.length = c.workers.length)
    (fun c' m h => (length_apply c' m).trans h) ms rfl

/-- Who has finished has finished for good. -/
theorem HasFinished.apply {i : Nat} (h : HasFinished c i) (m : Move) :
    HasFinished (c.apply rules m) i := by
  obtain ⟨result, hr⟩ := h
  rcases apply_cases rules c m with h | ⟨j, w, l', hne, h⟩
  · exact ⟨result, by rw [h, hr]⟩
  · have hj : j ≠ i := by
      intro heq
      subst heq
      exact hne result hr
    exact ⟨result, by rw [h, List.getElem?_set_ne hj, hr]⟩

theorem HasFinished.foldl {i : Nat} (h : HasFinished c i) (ms : List Move) :
    HasFinished (ms.foldl (Crew.apply rules) c) i :=
  foldl_of_apply (HasFinished · i) (fun _ m h => h.apply m) ms h

omit [Backend σ] [Module μ σ] in
theorem hasFinished_set {i : Nat} (hi : i < c.workers.length)
    (result : Except Failure (List String)) (l' : Lending μ σ) :
    HasFinished ⟨c.workers.set i (.finished result), l'⟩ i :=
  ⟨result, List.getElem?_set_self hi⟩

/-- A worker that works is brought to its end by finishing. -/
theorem hasFinished_finish {i : Nat} {chunk : List String} {inst : Instance σ}
    (hw : c.workers[i]? = some (.working chunk inst)) :
    HasFinished (c.apply rules (.finish i)) i := by
  obtain ⟨hi, -⟩ := List.getElem?_eq_some_iff.mp hw
  show HasFinished (c.finish rules i) i
  unfold Crew.finish
  rw [hw]
  exact hasFinished_set hi _ _

/-- Starting and finishing brings a worker to its end, wherever it was. -/
theorem hasFinished_start_finish {i : Nat} (hi : i < c.workers.length) :
    HasFinished ((c.apply rules (.start i)).apply rules (.finish i)) i := by
  obtain ⟨w, hw⟩ : ∃ w, c.workers[i]? = some w := ⟨_, List.getElem?_eq_getElem hi⟩
  cases w with
  | waiting chunk =>
    cases hacq : c.lending.acquire with
    | mk result l' =>
      cases result with
      | ok inst =>
        have hstart : c.apply rules (.start i) =
            ⟨c.workers.set i (.working chunk inst), l'⟩ := by
          show c.start i = _
          unfold Crew.start
          rw [hw]
          simp only [hacq]
        rw [hstart]
        exact hasFinished_finish (List.getElem?_set_self hi)
      | error e =>
        have hstart : c.apply rules (.start i) =
            ⟨c.workers.set i (.finished (.error (.error e))), l'⟩ := by
          show c.start i = _
          unfold Crew.start
          rw [hw]
          simp only [hacq]
        rw [hstart]
        exact (hasFinished_set hi _ _).apply _
  | working chunk inst =>
    have hstart : c.apply rules (.start i) = c := by
      show c.start i = c
      unfold Crew.start
      rw [hw]
    rw [hstart]
    exact hasFinished_finish hw
  | finished result =>
    have hdone : HasFinished c i := ⟨result, hw⟩
    exact (hdone.apply _).apply _

theorem hasFinished_oneByOne {n : Nat} (hn : n ≤ c.workers.length) {i : Nat} (hi : i < n) :
    HasFinished ((oneByOne n).foldl (Crew.apply rules) c) i := by
  induction n with
  | zero => omega
  | succ n ih =>
    have hsplit : oneByOne (n + 1) = oneByOne n ++ [.start n, .finish n] := by
      simp [oneByOne, List.range_succ, List.flatMap_append]
    rw [hsplit, List.foldl_append]
    by_cases hin : i < n
    · exact (ih (by omega) hin).foldl _
    · obtain rfl : i = n := by omega
      exact hasFinished_start_finish (by rw [length_foldl]; omega)

/-- When all moves are made every worker has finished. -/
theorem hasFinished_runAll (rules : String) (schedule : List Move) {i : Nat}
    (hi : i < c.workers.length) :
    HasFinished (c.runAll rules schedule) i := by
  unfold runAll
  rw [List.foldl_append]
  exact hasFinished_oneByOne (Nat.le_of_eq (length_foldl _ _).symm) hi

end Crew

/-! ## What the pool lends meanwhile -/

/-- The instance at which a worker is. -/
def Worker.identities : Worker σ → List Identity
  | .working _ inst => [inst.identity]
  | _ => []

namespace Crew

/-- A worker that finishes does its work with its instance and gives it back, however the work
    ends. -/
theorem finish_of_working [Backend σ] {c : Crew μ σ} {rules : String} {i : Nat}
    {chunk : List String} {inst : Instance σ} (hw : c.workers[i]? = some (.working chunk inst)) :
    c.finish rules i =
      ⟨c.workers.set i (.finished
        ((Instance.withCompiled rules fun h => Instance.filter h chunk).perform inst).1),
        c.lending.release (inst.work (.call (.work rules chunk)))⟩ := by
  rw [Instance.work_work]
  unfold Crew.finish
  rw [hw]

/-- The pool of a crew lends the instances at which workers are, which are untainted, and
    others. -/
structure Lends (c : Crew μ σ) (others : List Identity) : Prop where
  lends : c.lending.Lends (c.workers.flatMap Worker.identities ++ others)
  untainted : ∀ chunk inst, .working chunk inst ∈ c.workers → inst.tainted = false

variable {c : Crew μ σ} {others : List Identity}

namespace Lends

/-- One worker is put where it is at no instance, or at an untainted one. -/
theorem set (h : c.Lends others) (i : Nat) {w : Worker σ} {l : Lending μ σ}
    (hlends : l.Lends ((c.workers.set i w).flatMap Worker.identities ++ others))
    (hw : ∀ chunk inst, w = .working chunk inst → inst.tainted = false) :
    Lends ⟨c.workers.set i w, l⟩ others := by
  refine ⟨hlends, fun chunk inst hmem => ?_⟩
  rcases List.mem_or_eq_of_mem_set hmem with hmem | heq
  · exact h.untainted chunk inst hmem
  · exact hw chunk inst heq.symm

/-- A worker that works is at an untainted instance, which the pool has lent. -/
theorem working (h : c.Lends others) {i : Nat} {chunk : List String} {inst : Instance σ}
    (hw : c.workers[i]? = some (.working chunk inst)) :
    inst.tainted = false ∧ ∃ rest, c.lending.Lends (inst.identity :: rest) ∧ ∀ result,
      ((c.workers.set i (.finished result)).flatMap Worker.identities ++ others).Perm rest := by
  obtain ⟨rest, hperm, hset⟩ := exists_perm_flatMap_set Worker.identities hw
  exact ⟨h.untainted chunk inst (List.mem_of_getElem? hw), rest ++ others,
    h.lends.perm (hperm.append_right others), fun _ => (hset _).append_right others⟩

/-- Nobody of a crew has begun yet. -/
theorem of_waiting {l : Lending μ σ} (h : l.Lends others) (chunks : List (List String)) :
    Lends ⟨chunks.map .waiting, l⟩ others := by
  have hnone : (chunks.map (Worker.waiting (σ := σ))).flatMap Worker.identities = [] := by
    rw [List.flatMap_map]
    exact List.flatMap_eq_nil_iff.mpr fun _ _ => rfl
  refine ⟨by rwa [hnone], fun chunk inst hmem => ?_⟩
  obtain ⟨_, -, heq⟩ := List.mem_map.mp hmem
  cases heq

variable {rules : String}

section Start

variable [Module μ σ]

theorem start (h : c.Lends others) (i : Nat) : (c.start i).Lends others := by
  unfold Crew.start
  split
  · next chunk hw =>
    obtain ⟨rest, hperm, hset⟩ := exists_perm_flatMap_set Worker.identities hw
    have hlent : c.lending.Lends (rest ++ others) := h.lends.perm (hperm.append_right others)
    split
    · next inst l hacq =>
      obtain ⟨huntainted, hlent'⟩ := hlent.acquire_ok hacq
      refine h.set i (hlent'.perm ((hset (.working chunk inst)).append_right others).symm) ?_
      exact fun _ _ heq => (Worker.working.inj heq).2 ▸ huntainted
    · next e l hacq =>
      refine h.set i ((hlent.acquire_error hacq).perm
        ((hset (.finished (.error (.error e)))).append_right others).symm) ?_
      exact fun _ _ heq => by cases heq
  · exact h

end Start

variable [Backend σ]

theorem finish (h : c.Lends others) (i : Nat) : (c.finish rules i).Lends others := by
  cases hw : c.workers[i]? with
  | none => rwa [Crew.finish, hw]
  | some w =>
    cases w with
    | working chunk inst =>
      obtain ⟨-, rest, hlent, hrest⟩ := h.working hw
      rw [← Instance.identity_work inst (.call (.work rules chunk))] at hlent
      rw [finish_of_working hw]
      exact h.set i (hlent.release.perm (hrest _).symm) fun _ _ heq => by cases heq
    | waiting chunk => rwa [Crew.finish, hw]
    | finished result => rwa [Crew.finish, hw]

variable [Module μ σ]

theorem apply (h : c.Lends others) (m : Move) : (c.apply rules m).Lends others := by
  cases m with
  | start i => exact h.start i
  | finish i => exact h.finish i

theorem foldl (h : c.Lends others) (ms : List Move) :
    (ms.foldl (Crew.apply rules) c).Lends others :=
  foldl_of_apply (Crew.Lends · others) (fun _ m h => h.apply m) ms h

/-- When all moves are made the pool lends the others' instances only. -/
theorem lends_runAll (h : c.Lends others) (schedule : List Move) :
    (c.runAll rules schedule).lending.Lends others := by
  have hnone : (c.runAll rules schedule).workers.flatMap Worker.identities = [] := by
    refine List.flatMap_eq_nil_iff.mpr fun w hw => ?_
    obtain ⟨i, hi, rfl⟩ := List.getElem_of_mem hw
    have hlen : (c.runAll rules schedule).workers.length = c.workers.length := length_foldl _ _
    obtain ⟨result, hr⟩ := hasFinished_runAll rules schedule (hlen ▸ hi)
    rw [List.getElem?_eq_getElem hi, Option.some.injEq] at hr
    rw [hr]
    rfl
  have hend : (c.runAll rules schedule).Lends others := h.foldl _
  have hlent := hend.lends
  rwa [hnone] at hlent

end Lends

end Crew

end PathSieve

/-
  The workers of a parallel filter on a stocked pool.

  Whatever move comes next, a worker that waits has its chunk, one that works holds a blank
  instance of the pool, and one that has finished has the answer that its chunk alone gives
  (`WorkerFits`); the pool stays stocked (`CrewFits`). So any order of moves comes to the
  same: when all have finished, the results are what the chunks give, one by one
  (`runAll_waiting`).
-/
import PathSieve.Proofs.Matcher.Moves
import PathSieve.Proofs.Pool.Stock

namespace PathSieve.Crew

open Instance Lending

/-- The workers of a parallel filter over the guest that evaluates rule sets. -/
abbrev GuestCrew := Crew GuestModule Guest

/-- Is a worker where it should be with its chunk? -/
def WorkerFits (l : GuestLending) (rules : String) (chunk : List String) :
    Worker Guest → Prop
  | .waiting c => c = chunk
  | .working c inst => c = chunk ∧ l.Owns inst ∧ inst.Blank
  | .finished result =>
    result = (workAnswer (roomUnder l.pool.module.maxPages) rules chunk).mapError .error

/-- Are all workers where they should be, and is the pool stocked? -/
structure CrewFits (l : GuestLending) (rules : String) (chunks : List (List String))
    (c : GuestCrew) : Prop where
  stocked : c.lending.Stocked
  same : Same l c.lending
  length_eq : c.workers.length = chunks.length
  workers : ∀ (i : Nat) (chunk : List String) (w : Worker Guest), chunks[i]? = some chunk →
    c.workers[i]? = some w → WorkerFits l rules chunk w

variable {l : GuestLending} {rules : String} {chunks : List (List String)} {c : GuestCrew}

/-- Putting one worker and the pool into a fitting state keeps the crew fitting. -/
theorem CrewFits.set (h : CrewFits l rules chunks c) {i : Nat} {chunk : List String}
    (hi : chunks[i]? = some chunk) {w : Worker Guest} (hw : WorkerFits l rules chunk w)
    {l' : GuestLending} (hstock : l'.Stocked) (hsame : Same c.lending l') :
    CrewFits l rules chunks ⟨c.workers.set i w, l'⟩ := by
  refine ⟨hstock, h.same.trans hsame, by rw [List.length_set, h.length_eq], ?_⟩
  intro j chunk' w' hj hw'
  rw [List.getElem?_set] at hw'
  split at hw'
  · next hij =>
    subst hij
    split at hw'
    · rw [Option.some.injEq] at hw'
      rw [hi, Option.some.injEq] at hj
      exact hj ▸ hw' ▸ hw
    · simp at hw'
  · exact h.workers j chunk' w' hj hw'

theorem CrewFits.exists_chunk (h : CrewFits l rules chunks c) {i : Nat} {w : Worker Guest}
    (hw : c.workers[i]? = some w) :
    ∃ chunk, chunks[i]? = some chunk ∧ WorkerFits l rules chunk w := by
  obtain ⟨hi, -⟩ := List.getElem?_eq_some_iff.mp hw
  rw [h.length_eq] at hi
  exact ⟨chunks[i], List.getElem?_eq_getElem hi,
    h.workers i _ w (List.getElem?_eq_getElem hi) hw⟩

theorem CrewFits.start (h : CrewFits l rules chunks c) (i : Nat) :
    CrewFits l rules chunks (c.start i) := by
  unfold Crew.start
  split
  · next chunk hw =>
    obtain ⟨chunk', hi, hfit⟩ := h.exists_chunk hw
    obtain rfl : chunk = chunk' := hfit
    obtain ⟨inst, l', hacq, hstock, hsame, howns, hblank⟩ := h.stocked.acquire
    rw [hacq]
    have howns' : l.Owns inst := by
      have := (h.same.trans hsame)
      unfold Owns at howns ⊢
      rwa [this.id_eq, this.module_eq] at howns
    have hfit : WorkerFits l rules chunk (.working chunk inst) := ⟨rfl, howns', hblank⟩
    exact h.set hi hfit hstock hsame
  · exact h

theorem CrewFits.finish (h : CrewFits l rules chunks c) (i : Nat) :
    CrewFits l rules chunks (c.finish rules i) := by
  unfold Crew.finish
  split
  · next chunk inst hw =>
    obtain ⟨chunk', hi, rfl, howns, hblank⟩ := h.exists_chunk hw
    obtain ⟨done, hdone, hsuits, hback⟩ := perform_work howns hblank rules chunk
    rw [hdone]
    obtain ⟨hstock, hsame⟩ := h.stocked.release (h.same.owns hsuits) hback
    have hfit : WorkerFits l rules chunk (.finished ((workAnswer
        (roomUnder l.pool.module.maxPages) rules chunk).mapError .error)) := rfl
    exact h.set hi hfit hstock hsame
  · exact h

theorem CrewFits.apply (h : CrewFits l rules chunks c) (m : Move) :
    CrewFits l rules chunks (c.apply rules m) := by
  cases m with
  | start i => exact h.start i
  | finish i => exact h.finish i

theorem CrewFits.foldl (h : CrewFits l rules chunks c) (ms : List Move) :
    CrewFits l rules chunks (ms.foldl (Crew.apply rules) c) :=
  foldl_of_apply (CrewFits l rules chunks) (fun _ m h => h.apply m) ms h

/-- Whatever the schedule, the results are what the chunks give, one by one. -/
theorem CrewFits.results_runAll (h : CrewFits l rules chunks c) (schedule : List Move) :
    (c.runAll rules schedule).results =
      chunks.map (workAnswer (roomUnder l.pool.module.maxPages) rules) := by
  have hfits : CrewFits l rules chunks (c.runAll rules schedule) := h.foldl _
  apply List.ext_getElem?
  intro i
  unfold Crew.results
  rw [List.getElem?_map, List.getElem?_map]
  by_cases hi : i < c.workers.length
  · obtain ⟨result, hr⟩ := hasFinished_runAll rules schedule hi
    obtain ⟨chunk, hchunk, hfit⟩ := hfits.exists_chunk hr
    rw [hr, hchunk, Option.map_some, Option.map_some, hfit]
    cases workAnswer (roomUnder l.pool.module.maxPages) rules chunk <;> rfl
  · have hlen := hfits.length_eq
    have hlen' := h.length_eq
    rw [List.getElem?_eq_none (by omega), List.getElem?_eq_none (by omega)]
    rfl

/-- A crew whose workers all wait fits, if the pool is stocked. -/
theorem crewFits_waiting (hstock : l.Stocked) (rules : String) (chunks : List (List String)) :
    CrewFits l rules chunks ⟨chunks.map .waiting, l⟩ := by
  refine ⟨hstock, .refl l, List.length_map .., ?_⟩
  intro i chunk w hi hw
  rw [List.getElem?_map, hi, Option.map_some, Option.some.injEq] at hw
  subst hw
  rfl

/-- What comes of workers that have their chunks: the answers of the chunks, whatever the
    schedule, and a stocked pool. -/
theorem runAll_waiting (hstock : l.Stocked) (rules : String) (schedule : List Move)
    (chunks : List (List String)) :
    ∃ c : GuestCrew,
      (⟨chunks.map .waiting, l⟩ : GuestCrew).runAll rules schedule = c ∧
      c.results = chunks.map (workAnswer (roomUnder l.pool.module.maxPages) rules) ∧
      c.lending.Stocked ∧ Same l c.lending := by
  have hfits := crewFits_waiting hstock rules chunks
  have hrun : CrewFits l rules chunks (runAll rules schedule _) := hfits.foldl _
  exact ⟨_, rfl, hfits.results_runAll schedule, hrun.stocked, hrun.same⟩

end PathSieve.Crew

/-
  A parallel filter reports what has come of every chunk.

  Each chunk has a result of its own: that of the matcher's instance for the first one, and for
  every other one what its worker comes to, which borrows an instance from the pool as it finds it
  (`Crew.Earns`). These are all that the outcome is made of, in the order of the chunks and in
  whatever order the workers have moved. Nobody but the matcher is at its own instance, so that
  no failure of a worker taints it (`parallel_run`).
-/
import Mathlib.Data.List.Induction
import PathSieve.Proofs.Matcher.Cutting
import PathSieve.Proofs.Matcher.MatcherPool
import PathSieve.Sandbox.Faulty

namespace PathSieve

open PathSieve.Action

variable {μ σ : Type} [Backend σ]

/-- The wording of a failure. -/
def Failure.message : Failure → String
  | .error e => e.message
  | .panic text => text

namespace Move

/-- The worker that makes a move. -/
def worker : Move → Nat
  | .start i | .finish i => i

end Move

namespace Crew

/-- The result that the end of a chunk counts as: one that has unwound has failed. -/
def joined : Except Failure (List String) → Except Error (List String)
  | .ok kept => .ok kept
  | .error (.error e) => .error e
  | .error (.panic _) => .error .workerPanicked

variable [Module μ σ] {rules : String} {c : Crew μ σ} {moves : List Move} {i : Nat}
  {chunk : List String}

/-- What a worker does with its chunk on an instance. -/
def job (rules : String) (chunk : List String) : Action σ (List String) :=
  Instance.withCompiled rules fun h => Instance.filter h chunk

/-- In the course of moves a worker begins with its chunk, and the pool is then as given. -/
def Begins (rules : String) (c : Crew μ σ) (moves : List Move) (i : Nat) (chunk : List String)
    (l : Lending μ σ) : Prop :=
  ∃ before after, moves = before ++ .start i :: after ∧
    (before.foldl (apply rules) c).workers[i]? = some (.waiting chunk) ∧
    (before.foldl (apply rules) c).lending = l

/-- A worker comes to what is got by borrowing an instance for its work from the pool, as that
    is when the worker begins. -/
def Earns (rules : String) (c : Crew μ σ) (moves : List Move) (i : Nat) (chunk : List String)
    (result : Except Failure (List String)) : Prop :=
  ∃ l, Begins rules c moves i chunk l ∧ (l.borrow (job rules chunk)).1 = result

/-- How far a worker has come with its chunk. -/
inductive Stage (rules : String) (c : Crew μ σ) (moves : List Move) (i : Nat)
    (chunk : List String) : Worker σ → Prop where
  | waiting : Stage rules c moves i chunk (.waiting chunk)
  | working {l l' : Lending μ σ} {inst : Instance σ} (begins : Begins rules c moves i chunk l)
    (acquire_eq : l.acquire = (.ok inst, l')) : Stage rules c moves i chunk (.working chunk inst)
  | finished {result : Except Failure (List String)} (earns : Earns rules c moves i chunk result) :
    Stage rules c moves i chunk (.finished result)

theorem Begins.snoc {l : Lending μ σ} (h : Begins rules c moves i chunk l) (m : Move) :
    Begins rules c (moves ++ [m]) i chunk l := by
  obtain ⟨before, after, rfl, hwaits, hl⟩ := h
  exact ⟨before, after ++ [m], by simp, hwaits, hl⟩

theorem Earns.snoc {result : Except Failure (List String)} (h : Earns rules c moves i chunk result)
    (m : Move) : Earns rules c (moves ++ [m]) i chunk result :=
  h.imp fun _ hl => ⟨hl.1.snoc m, hl.2⟩

theorem Stage.snoc {w : Worker σ} (h : Stage rules c moves i chunk w) (m : Move) :
    Stage rules c (moves ++ [m]) i chunk w := by
  cases h with
  | waiting => exact .waiting
  | working hbegins hacq => exact .working (hbegins.snoc m) hacq
  | finished hearns => exact .finished (hearns.snoc m)

/-- Nobody moves but the worker that makes the move. -/
theorem getElem?_apply_of_ne {m : Move} (h : m.worker ≠ i) :
    (c.apply rules m).workers[i]? = c.workers[i]? := by
  cases m with
  | start j =>
    show (c.start j).workers[i]? = _
    unfold Crew.start
    split
    · split <;> exact List.getElem?_set_ne h
    · rfl
  | finish j =>
    show (c.finish rules j).workers[i]? = _
    unfold Crew.finish
    split
    · exact List.getElem?_set_ne h
    · rfl

omit [Backend σ] in
theorem borrow_of_error {l l' : Lending μ σ} {e : Error} (h : l.acquire = (.error e, l'))
    {α : Type} (a : Action σ α) : (l.borrow a).1 = .error (.error e) := by
  simp only [Lending.borrow, h]

omit [Backend σ] in
theorem borrow_of_ok {l l' : Lending μ σ} {inst : Instance σ} (h : l.acquire = (.ok inst, l'))
    {α : Type} (a : Action σ α) : (l.borrow a).1 = (a.perform inst).1 := by
  simp only [Lending.borrow, h]

/-- A worker begins, if it has not begun. -/
theorem Stage.start {w : Worker σ} (h : Stage rules c moves i chunk w)
    (hat : (moves.foldl (apply rules) c).workers[i]? = some w) :
    ∃ w', ((moves.foldl (apply rules) c).start i).workers[i]? = some w' ∧
      Stage rules c (moves ++ [.start i]) i chunk w' := by
  obtain ⟨hi, -⟩ := List.getElem?_eq_some_iff.mp hat
  unfold Crew.start
  rw [hat]
  cases h with
  | waiting =>
    have hbegins : Begins rules c (moves ++ [.start i]) i chunk _ := ⟨moves, [], rfl, hat, rfl⟩
    cases hacq : (moves.foldl (apply rules) c).lending.acquire with
    | mk result l =>
      cases result with
      | ok inst => exact ⟨_, List.getElem?_set_self hi, .working hbegins hacq⟩
      | error e =>
        exact ⟨_, List.getElem?_set_self hi, .finished ⟨_, hbegins, borrow_of_error hacq _⟩⟩
  | working hbegins hacq => exact ⟨_, hat, .working (hbegins.snoc _) hacq⟩
  | finished hearns => exact ⟨_, hat, .finished (hearns.snoc _)⟩

/-- A worker comes to its end, if it is at work. -/
theorem Stage.finish {w : Worker σ} (h : Stage rules c moves i chunk w)
    (hat : (moves.foldl (apply rules) c).workers[i]? = some w) :
    ∃ w', ((moves.foldl (apply rules) c).finish rules i).workers[i]? = some w' ∧
      Stage rules c (moves ++ [.finish i]) i chunk w' := by
  obtain ⟨hi, -⟩ := List.getElem?_eq_some_iff.mp hat
  unfold Crew.finish
  rw [hat]
  cases h with
  | waiting => exact ⟨_, hat, .waiting⟩
  | working hbegins hacq =>
    exact ⟨_, List.getElem?_set_self hi, .finished ⟨_, hbegins.snoc _, borrow_of_ok hacq _⟩⟩
  | finished hearns => exact ⟨_, hat, .finished (hearns.snoc _)⟩

/-- A worker gets on with its chunk, whoever moves. -/
theorem stage_foldl (rules : String) (hw : c.workers[i]? = some (.waiting chunk))
    (moves : List Move) :
    ∃ w, (moves.foldl (apply rules) c).workers[i]? = some w ∧ Stage rules c moves i chunk w := by
  induction moves using List.reverseRecOn with
  | nil => exact ⟨_, hw, .waiting⟩
  | append_singleton moves m ih =>
    obtain ⟨w, hat, hstage⟩ := ih
    rw [List.foldl_append]
    show ∃ w, ((moves.foldl (apply rules) c).apply rules m).workers[i]? = some w ∧ _
    by_cases hm : m.worker = i
    · subst hm
      cases m with
      | start i => exact hstage.start hat
      | finish i => exact hstage.finish hat
    · exact ⟨w, (getElem?_apply_of_ne hm).trans hat, hstage.snoc m⟩

/-! ## A worker begins once -/

/-- A worker has begun, even if no instance has been found for it. -/
def HasBegun (c : Crew μ σ) (i : Nat) : Prop :=
  ∀ chunk, c.workers[i]? ≠ some (.waiting chunk)

omit [Backend σ] in
theorem hasBegun_start (c : Crew μ σ) (i : Nat) : (c.start i).HasBegun i := by
  intro chunk
  unfold Crew.start
  split
  · next chunk' hw =>
    obtain ⟨hi, -⟩ := List.getElem?_eq_some_iff.mp hw
    split <;> simp [List.getElem?_set_self hi]
  · next hnone => exact hnone chunk

theorem HasBegun.apply (h : c.HasBegun i) (m : Move) : (c.apply rules m).HasBegun i := by
  by_cases hm : m.worker = i
  · subst hm
    cases m with
    | start i => exact hasBegun_start c i
    | finish i =>
      intro chunk
      show (c.finish rules i).workers[i]? ≠ _
      unfold Crew.finish
      split
      · next chunk' inst hw =>
        obtain ⟨hi, -⟩ := List.getElem?_eq_some_iff.mp hw
        simp [List.getElem?_set_self hi]
      · exact h chunk
  · intro chunk
    rw [getElem?_apply_of_ne hm]
    exact h chunk

theorem hasBegun_foldl (before after : List Move) :
    ((before ++ .start i :: after).foldl (apply rules) c).HasBegun i := by
  rw [List.foldl_append]
  exact foldl_of_apply (HasBegun · i) (fun _ m h => h.apply m) after (hasBegun_start _ i)

theorem Begins.unique {l l' : Lending μ σ} (h : Begins rules c moves i chunk l)
    (h' : Begins rules c moves i chunk l') : l = l' := by
  obtain ⟨before, after, hmoves, hwaits, rfl⟩ := h
  obtain ⟨before', after', hmoves', hwaits', rfl⟩ := h'
  -- of two beginnings one comes first, and the worker does not wait at the other one
  rcases List.append_eq_append_iff.mp (hmoves.symm.trans hmoves') with
    ⟨between, rfl, hcons⟩ | ⟨between, rfl, hcons⟩
  all_goals
    cases between with
    | nil => simp
    | cons m between =>
      obtain ⟨rfl, -⟩ := List.cons.inj hcons
      first
        | exact absurd hwaits (hasBegun_foldl _ _ _)
        | exact absurd hwaits' (hasBegun_foldl _ _ _)

theorem Earns.unique {result result' : Except Failure (List String)}
    (h : Earns rules c moves i chunk result) (h' : Earns rules c moves i chunk result') :
    result = result' := by
  obtain ⟨l, hbegins, rfl⟩ := h
  obtain ⟨l', hbegins', rfl⟩ := h'
  rw [hbegins.unique hbegins']

/-! ## What a crew comes to -/

/-- The moves of a crew until all have come to their end. -/
def allMoves (schedule : List Move) (c : Crew μ σ) : List Move :=
  schedule ++ oneByOne c.workers.length

/-- The results of a crew are those that its workers have earned. -/
theorem exists_earns (rules : String) (schedule : List Move)
    (hw : c.workers[i]? = some (.waiting chunk)) :
    ∃ result, (∀ other, Earns rules c (allMoves schedule c) i chunk other ↔ other = result) ∧
      (c.runAll rules schedule).results[i]? = some (joined result) := by
  obtain ⟨hi, -⟩ := List.getElem?_eq_some_iff.mp hw
  obtain ⟨w, hat, hstage⟩ := stage_foldl rules hw (allMoves schedule c)
  obtain ⟨result, hfinished⟩ := hasFinished_runAll rules schedule hi
  obtain rfl := Option.some.inj (hat.symm.trans hfinished)
  cases hstage with
  | finished hearns =>
    refine ⟨result, fun other => ⟨(·.unique hearns), fun heq => heq ▸ hearns⟩, ?_⟩
    unfold results
    rw [List.getElem?_map, hfinished]
    rcases result with (_ | _) | _ <;> rfl

theorem length_results_runAll (rules : String) (schedule : List Move) (c : Crew μ σ) :
    (c.runAll rules schedule).results.length = c.workers.length :=
  (List.length_map _).trans (length_foldl _ _)

end Crew

namespace Matcher

variable [Module μ σ] {m : Matcher σ} {inst : Instance σ} {l : Lending μ σ}

/-- What comes of filtering chunks in parallel, where the first one is filtered on the matcher's
    own instance. -/
structure Parallel (m : Matcher σ) (inst : Instance σ) (l : Lending μ σ) (schedule : List Move)
    (own : List String) (others : List (List String))
    (outcome : Except Failure (List String) × Matcher σ × Lending μ σ) : Prop where
  /-- Each chunk has a result, and they make up the outcome. -/
  reports : ∃ (results : List (Except Error (List String))) (merged : Except Error (List String)),
    results.length = others.length + 1 ∧
      results[0]? = some (Crew.joined ((Instance.filter m.handle own).perform inst).1) ∧
      (∀ i chunk, others[i]? = some chunk → ∃ result,
        (∀ other, Crew.Earns m.rules ⟨others.map .waiting, l⟩
          (Crew.allMoves schedule ⟨others.map .waiting, l⟩) i chunk other ↔ other = result) ∧
        results[i + 1]? = some (Crew.joined result)) ∧
      outcome.1 = merged.mapError .error ∧ Chunks.Reports results merged
  /-- The matcher has filtered the first chunk, and nothing else has happened to it. -/
  matcher_eq : outcome.2.1 = { m with lease := some (inst.work (.call (.filter m.handle own))) }
  /-- Its instance is tainted when a call for that chunk has trapped, or was before. -/
  tainted_iff : (inst.work (.call (.filter m.handle own))).tainted = true ↔
    inst.tainted = true ∨ ∃ x ∈ inst.heard (.call (.filter m.handle own)), x.ending = .trapped
  /-- After any moves, workers are at instances of their own, and not at that of the matcher. -/
  apart : ∀ moves : List Move, (inst.id ::
    ((moves.foldl (Crew.apply m.rules) ⟨others.map .waiting, l⟩ : Crew μ σ).workers.flatMap
      Worker.identities).map Identity.id).Nodup

theorem ofList_eq_cons {α : Type} (xs : List α) (workers : Nat) :
    ∃ own others, Chunks.ofList xs workers = own :: others := by
  cases h : Chunks.ofList xs workers with
  | nil =>
    have hlen := congrArg List.length h
    rw [Chunks.length_ofList] at hlen
    exact absurd hlen (Nat.pos_iff_ne_zero.mp (Chunks.count_pos ..))
  | cons own others => exact ⟨own, others, rfl⟩

/-- What filtering in parallel comes to when there is work for several instances. -/
theorem filterParallel_eq_merge (hlease : m.lease = some inst) {cpus : Nat} {paths : List String}
    (hcount : 2 ≤ min (l.pool.config.effectiveParallelism cpus) paths.length)
    {own : List String} {others : List (List String)}
    (hchunks : Chunks.ofList paths (min (l.pool.config.effectiveParallelism cpus) paths.length) =
      own :: others)
    (hcalm : ∀ text, ((Instance.filter m.handle own).perform inst).1 ≠ .error (.panic text))
    (schedule : List Move) :
    m.filterParallel cpus schedule paths l =
      ((Chunks.merge (Crew.joined ((Instance.filter m.handle own).perform inst).1 ::
          ((⟨others.map .waiting, l⟩ : Crew μ σ).runAll m.rules schedule).results)).mapError .error,
        { m with lease := some (inst.work (.call (.filter m.handle own))) },
        ((⟨others.map .waiting, l⟩ : Crew μ σ).runAll m.rules schedule).lending) := by
  have hopen : (m.isClosed || decide
      (min (l.pool.config.effectiveParallelism cpus) paths.length ≤ 1)) = false := by
    simp only [isClosed, hlease, Option.isNone_some, Bool.false_or, decide_eq_false_iff_not]
    omega
  have hfilter : m.filter own = (((Instance.filter m.handle own).perform inst).1,
      { m with lease := some (inst.work (.call (.filter m.handle own))) }) := by
    rw [Instance.work_filter]
    unfold Matcher.filter use
    rw [hlease]
  unfold filterParallel
  rw [if_neg (by rw [hopen]; decide), hchunks]
  simp only [List.tail_cons, List.headD_cons, hfilter]
  rcases hr : ((Instance.filter m.handle own).perform inst).1 with (e | text) | kept
  · rfl
  · exact absurd hr (hcalm text)
  · rfl

theorem parallel_filterParallel (hlease : m.lease = some inst) {out : List Identity}
    (hlends : l.Lends (inst.identity :: out)) {cpus : Nat} {paths : List String}
    (hcount : 2 ≤ min (l.pool.config.effectiveParallelism cpus) paths.length)
    {own : List String} {others : List (List String)}
    (hchunks : Chunks.ofList paths (min (l.pool.config.effectiveParallelism cpus) paths.length) =
      own :: others)
    (hcalm : ∀ text, ((Instance.filter m.handle own).perform inst).1 ≠ .error (.panic text))
    (schedule : List Move) :
    m.Parallel inst l schedule own others (m.filterParallel cpus schedule paths l) := by
  rw [filterParallel_eq_merge hlease hcount hchunks hcalm schedule]
  refine ⟨⟨_, _, ?_, rfl, fun i chunk hi => ?_, rfl, Chunks.reports_merge _⟩, rfl, ?_,
    fun moves => ?_⟩
  · rw [List.length_cons, Crew.length_results_runAll, List.length_map]
  · have hw : (⟨others.map .waiting, l⟩ : Crew μ σ).workers[i]? = some (.waiting chunk) := by
      rw [List.getElem?_map, hi]
      rfl
    obtain ⟨result, hearns, hresult⟩ := Crew.exists_earns m.rules schedule hw
    exact ⟨result, hearns, by rwa [List.getElem?_cons_succ]⟩
  · rw [Instance.tainted_work]
    simp [InstanceOp.isTaint]
  · have hcrew : ((moves.foldl (Crew.apply m.rules) ⟨others.map .waiting, l⟩ :
        Crew μ σ)).Lends (inst.identity :: out) := (Crew.Lends.of_waiting hlends others).foldl moves
    have hlent := (hcrew.lends.apart.sublist (List.sublist_append_right _ _)).perm
      List.perm_middle
    exact (hlent.sublist ((List.sublist_append_left _ _).cons_cons _)).nodup

end Matcher

namespace MatcherPool

variable [Module μ σ]

omit [Backend σ] [Module μ σ] in
theorem Sound.lends_of_lease {w : MatcherPool μ σ} (h : w.Sound) {place : Nat} {m : Matcher σ}
    {inst : Instance σ} (hm : w.matcher? place = some m) (hlease : m.lease = some inst) :
    ∃ out, w.lending.Lends (inst.identity :: out) := by
  obtain ⟨out, hperm, -⟩ := exists_perm_flatMap_set (fun m => (Matcher.identity? m).toList)
    (getElem?_of_matcher? hm)
  refine ⟨out, h.lends.perm (hperm.trans (List.Perm.of_eq ?_))⟩
  simp [Matcher.identity?, hlease]

/-- On a pool over any module, whatever has been asked of its matchers before, an open matcher
    that filters paths in parallel reports what has come of every chunk of them, in whatever
    order the workers move, if the filter of the first chunk does not unwind. -/
theorem parallel_run (poolId nextId : Nat) (module : μ) (config : Config) (ops : List MatcherOp)
    {w : MatcherPool μ σ} (hw : w = (fresh poolId nextId module config).run ops) {place : Nat}
    {m : Matcher σ} (hm : w.matcher? place = some m) {inst : Instance σ}
    (hlease : m.lease = some inst) (cpus : Nat) (paths : List String)
    (hcount : 2 ≤ min (w.lending.pool.config.effectiveParallelism cpus) paths.length) :
    ∃ own others, Chunks.ofList paths
        (min (w.lending.pool.config.effectiveParallelism cpus) paths.length) = own :: others ∧
      others.length + 1 = min (w.lending.pool.config.effectiveParallelism cpus) paths.length ∧
      own ++ others.flatten = paths ∧
      ((∀ text, ((Instance.filter m.handle own).perform inst).1 ≠ .error (.panic text)) →
        ∀ schedule, m.Parallel inst w.lending schedule own others
          (m.filterParallel cpus schedule paths w.lending)) := by
  have hsound : w.Sound := hw ▸ (sound_fresh poolId nextId module config).run ops
  obtain ⟨out, hlends⟩ := hsound.lends_of_lease hm hlease
  obtain ⟨own, others, hchunks⟩ := Matcher.ofList_eq_cons paths
    (min (w.lending.pool.config.effectiveParallelism cpus) paths.length)
  refine ⟨own, others, hchunks, ?_, ?_, fun hcalm =>
    Matcher.parallel_filterParallel hlease hlends hcount hchunks hcalm⟩
  · rw [← List.length_cons, ← hchunks, Chunks.length_ofList, Chunks.count]
    omega
  · rw [← List.flatten_cons, ← hchunks, Chunks.flatten_ofList]

/-- Filters unwind on the second guest of the module, and a third one is refused. -/
def brittleModule : FaultyModule :=
  ⟨⟨1, 4096⟩, ⟨some 3, [⟨.batchFilter, 2, 0, .panic⟩]⟩, 0⟩

/-- A matcher on the first guest of the module. -/
def brittle : MatcherPool FaultyModule FaultyGuest :=
  (fresh 1 1 brittleModule { parallelism := some 3 }).run [.make ["b"]]

/-- Of three chunks one is filtered, one unwinds and one finds no instance. Both failures are
    reported, and the matcher goes on to filter the whole list. -/
theorem parallel_run_brittle :
    ∃ m inst, brittle.matcher? 0 = some m ∧ m.lease = some inst ∧
      2 ≤ min (brittle.lending.pool.config.effectiveParallelism 1) ["a", "b", "c"].length ∧
      m.Parallel inst brittle.lending [.start 0, .start 1] ["a"] [["b"], ["c"]]
        (m.filterParallel 1 [.start 0, .start 1] ["a", "b", "c"] brittle.lending) ∧
      (m.filterParallel 1 [.start 0, .start 1] ["a", "b", "c"] brittle.lending).1.mapError
          Failure.message =
        .error ("parallel filter failed in 2 worker(s): worker 1: parallel filter worker panicked; " ++
          "worker 2: Failed to instantiate sandbox module: matcher_3 refused") ∧
      ((m.filterParallel 1 [.start 0, .start 1] ["a", "b", "c"] brittle.lending).2.1.filter
        ["a", "b", "c"]).1.toOption = some ["a", "c"] := by
  have hall : ((brittle.matcher? 0).any fun m => m.lease.any fun inst =>
      decide (((Instance.filter m.handle ["a"]).perform inst).1.toOption = some ["a"]) &&
      decide ((m.filterParallel 1 [.start 0, .start 1] ["a", "b", "c"] brittle.lending).1.mapError
          Failure.message =
        .error ("parallel filter failed in 2 worker(s): worker 1: parallel filter worker panicked; " ++
          "worker 2: Failed to instantiate sandbox module: matcher_3 refused")) &&
      decide (((m.filterParallel 1 [.start 0, .start 1] ["a", "b", "c"]
        brittle.lending).2.1.filter ["a", "b", "c"]).1.toOption = some ["a", "c"])) = true := by
    decide +kernel
  simp only [Option.any_eq_true, Bool.and_eq_true, decide_eq_true_eq] at hall
  obtain ⟨m, hm, inst, hlease, ⟨hown, hfailed⟩, hafter⟩ := hall
  have hcount : min (brittle.lending.pool.config.effectiveParallelism 1) ["a", "b", "c"].length =
      3 := by decide +kernel
  have htwo : 2 ≤ min (brittle.lending.pool.config.effectiveParallelism 1)
      ["a", "b", "c"].length := hcount ▸ (by decide)
  obtain ⟨own, others, hchunks, -, -, hparallel⟩ := parallel_run 1 1 brittleModule
    { parallelism := some 3 } [.make ["b"]] (w := brittle) rfl hm hlease 1 ["a", "b", "c"] htwo
  rw [hcount] at hchunks
  obtain ⟨rfl, rfl⟩ := List.cons.inj (hchunks.symm.trans
    (show Chunks.ofList ["a", "b", "c"] 3 = ["a"] :: [["b"], ["c"]] by decide +kernel))
  refine ⟨m, inst, hm, hlease, htwo, hparallel (fun text htext => ?_) _,
    hfailed, hafter⟩
  rw [htext] at hown
  cases hown

end MatcherPool

end PathSieve

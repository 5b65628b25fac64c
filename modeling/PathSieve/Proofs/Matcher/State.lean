/-
  What a matcher answers, without a pool.

  The state of a matcher is all that matters about it: its rules, and whether its guest has
  broken down or it has been closed. In a state requests are answered from the rules and from
  the room that the ceiling of the memory leaves. A matcher on a stocked pool gives the same
  answers but for the names of instances, whatever the pool has been through
  (`Fits.serve`, `fits_begin`).
-/
import PathSieve.Proofs.Matcher.Session
import PathSieve.Proofs.Matcher.Workers

namespace PathSieve

open Instance Lending

/-- All that matters about a matcher. -/
inductive MatcherState where
  | ready (text : String) (rs : RuleSet)
  /-- The guest has broken down. -/
  | broken (text : String)
  | closed (text : String)

namespace MatcherState

/-- The answers are given under a configuration, and where `room` says for which sizes
    there is room. -/
structure Setting where
  config : Config
  room : List Nat → Bool

variable (t : Setting)

/-- The state after an answer that may tell of a broken guest. -/
def settle {α : Type} (text : String) (rs : RuleSet) (answer : Except Error α) : MatcherState :=
  if breaks answer then .broken text else .ready text rs

/-- The answer about a path. -/
def verdict (path : List UInt8) (isDir : Bool) :
    MatcherState → Except Failure Verdict × MatcherState
  | .ready text rs =>
    let answer := (Seen.found rs).ask t.room path isDir
    (answer.mapError .error, settle text rs answer)
  | .broken text => (.error (.error (askRefusal "" path)), .broken text)
  | .closed text => (.error (.panic Matcher.closedText), .closed text)

/-- Is a path ignored? An error counts as no. -/
def flag (path : List UInt8) (isDir : Bool) (state : MatcherState) :
    Except Failure Bool × MatcherState :=
  match state.verdict t path isDir with
  | (.ok v, state) => (.ok (v == .ignored), state)
  | (.error (.error _), state) => (.ok false, state)
  | (.error (.panic text), state) => (.error (.panic text), state)

/-- The lines that are kept of a path list. -/
def lines (paths : List String) : MatcherState → Except Failure (List String) × MatcherState
  | .ready text rs =>
    let answer := (Seen.found rs).filter t.room paths
    (answer.mapError .error, settle text rs answer)
  | .broken text => ((filterRefusal "" paths).mapError .error, .broken text)
  | .closed text => (.error (.panic Matcher.closedText), .closed text)

/-- The answer for the first chunk with those for the others, each of which is filtered
    with the rules compiled anew. -/
def together (text : String) (own : Except Error (List String)) (others : List (List String)) :
    Except Failure (List String) :=
  (Chunks.merge (own :: others.map (workAnswer t.room text))).mapError .error

/-- The lines that are kept of a path list that is cut into chunks. -/
def chunked (chunks : List (List String)) :
    MatcherState → Except Failure (List String) × MatcherState
  | .ready text rs =>
    let own := (Seen.found rs).filter t.room (chunks.headD [])
    (together t text own chunks.tail, settle text rs own)
  | .broken text =>
    (together t text (filterRefusal "" (chunks.headD [])) chunks.tail, .broken text)
  | .closed text => (.error (.panic Matcher.closedText), .closed text)

/-- The lines that are kept of a path list by several workers. -/
def linesParallel (cpus : Nat) (paths : List String) (state : MatcherState) :
    Except Failure (List String) × MatcherState :=
  let count := min (t.config.effectiveParallelism cpus) paths.length
  if count ≤ 1 then state.lines t paths else state.chunked t (Chunks.ofList paths count)

theorem linesParallel_of_le {cpus : Nat} {paths : List String}
    (h : min (t.config.effectiveParallelism cpus) paths.length ≤ 1) (state : MatcherState) :
    state.linesParallel t cpus paths = state.lines t paths :=
  if_pos h

theorem linesParallel_of_not_le {cpus : Nat} {paths : List String}
    (h : ¬ min (t.config.effectiveParallelism cpus) paths.length ≤ 1) (state : MatcherState) :
    state.linesParallel t cpus paths =
      state.chunked t
        (Chunks.ofList paths (min (t.config.effectiveParallelism cpus) paths.length)) :=
  if_neg h

/-- The state after closing. -/
def close : MatcherState → MatcherState
  | .ready text _ => .closed text
  | .broken text => .closed text
  | .closed text => .closed text

/-- Ask where there is no matcher. -/
def begin : Query → Answer × Option MatcherState
  | .opens rules =>
    match compileAnswer t.room (Text.unlines rules) with
    | .ok rs => (.opened (.ok (Text.unlines rules)), some (.ready (Text.unlines rules) rs))
    | .error e => (.opened (.error (.error e)), none)
  | _ => (.refused, none)

/-- Ask something of a matcher in a state. -/
def serve (state : MatcherState) : Query → Answer × Option MatcherState
  | .opens _ => (.refused, some state)
  | .askBytes path isDir =>
    let (r, state) := state.verdict t path isDir
    (.verdict r, some state)
  | .ask path isDir =>
    let (r, state) := state.verdict t (Text.Utf8.encode path) isDir
    (.verdict r, some state)
  | .ignores path isDir =>
    let (r, state) := state.flag t (Text.Utf8.encode path) isDir
    (.flag r, some state)
  | .filter paths =>
    let (r, state) := state.lines t paths
    (.lines r, some state)
  | .filterParallel cpus paths =>
    let (r, state) := state.linesParallel t cpus paths
    (.lines r, some state)
  | .close => (.closed (.ok ()), some state.close)
  | .drop => (.closed (.ok ()), none)

/-- Ask something where there may be a matcher. -/
def step : Option MatcherState → Query → Answer × Option MatcherState
  | none, q => begin t q
  | some state, q => state.serve t q

/-- The answers to requests, one after the other. -/
def answers (state : Option MatcherState) : List Query → List Answer
  | [] => []
  | q :: qs => (step t state q).1 :: answers (step t state q).2 qs

end MatcherState

/-! ## Matchers and their states -/

/-- The setting that a pool gives its matchers. -/
def Lending.setting (l : GuestLending) : MatcherState.Setting :=
  ⟨l.pool.config, roomUnder l.pool.module.maxPages⟩

/-- Is a matcher on a pool in a state? -/
def Matcher.Fits (l : GuestLending) (m : Matcher Guest) : MatcherState → Prop
  | .ready text rs =>
    m.rules = text ∧ compileAnswer l.setting.room text = .ok rs ∧
      ∃ inst, m.lease = some inst ∧ l.Owns inst ∧ inst.Loaded m.handle rs
  | .broken text =>
    m.rules = text ∧
      ∃ inst, m.lease = some inst ∧ l.Owns inst ∧ inst.tainted = true ∧
        m.handle.instanceId = inst.id
  | .closed text => m.rules = text ∧ m.lease = none

/-- Are two ends of an action the same but for the names of instances? -/
def Alike {α : Type} (r r' : Except Failure α) : Prop :=
  r.mapError Failure.anonymous = r'.mapError Failure.anonymous

theorem Alike.refl {α : Type} (r : Except Failure α) : Alike r r := rfl

theorem anonymous_refusal (name name' : String) (size : Nat) :
    (refusal name size).anonymous = (refusal name' size).anonymous := by
  unfold refusal
  split <;> rfl

theorem alike_askRefusal {α : Type} (name name' : String) (path : List UInt8) :
    Alike (.error (.error (askRefusal name path)) : Except Failure α)
      (.error (.error (askRefusal name' path))) := by
  have h : (askRefusal name path).anonymous = (askRefusal name' path).anonymous := by
    unfold askRefusal
    split
    · rfl
    · exact anonymous_refusal ..
  exact congrArg (fun e => Except.error (Failure.error e)) h

theorem anonymous_filterRefusal (name name' : String) (paths : List String) :
    (filterRefusal name paths).mapError Error.anonymous =
      (filterRefusal name' paths).mapError Error.anonymous := by
  unfold filterRefusal
  split
  · rfl
  · exact congrArg Except.error (anonymous_refusal ..)

/-- Errors that are the same but for names make failures that are. -/
theorem alike_of_anonymous {α : Type} {r r' : Except Error α}
    (h : r.mapError Error.anonymous = r'.mapError Error.anonymous) :
    Alike (r.mapError Failure.error) (r'.mapError Failure.error) := by
  cases r <;> cases r' <;> simp_all [Alike, Except.mapError, Failure.anonymous]

namespace Matcher.Fits

variable {l l' : GuestLending} {m : Matcher Guest} {state : MatcherState}

theorem same (h : Fits l m state) (hsame : Same l l') : Fits l' m state := by
  have hset : l'.setting = l.setting := by
    unfold Lending.setting
    rw [hsame.module_eq, hsame.config_eq]
  cases state with
  | ready text rs =>
    obtain ⟨htext, hcompile, inst, hlease, howns, hloaded⟩ := h
    exact ⟨htext, hset ▸ hcompile, inst, hlease, hsame.owns howns, hloaded⟩
  | broken text =>
    obtain ⟨htext, inst, hlease, howns, hrest⟩ := h
    exact ⟨htext, inst, hlease, hsame.owns howns, hrest⟩
  | closed text => exact h

/-- A used instance goes with the state that its answer leaves. -/
theorem settle {α : Type} {text : String} {rs : RuleSet} {inst done : Instance Guest}
    {answer : Except Error α} (h : Fits l m (.ready text rs)) (hown : m.handle.instanceId = inst.id)
    (howns : l.Owns done) (hused : inst.Used done m.handle rs (breaks answer)) :
    Fits l { m with lease := some done } (MatcherState.settle text rs answer) := by
  obtain ⟨htext, hcompile, -⟩ := h
  unfold MatcherState.settle
  split
  · next hb =>
    exact ⟨htext, done, rfl, howns, hused.tainted_eq.trans hb, hown.trans hused.id_eq.symm⟩
  · next hb =>
    exact ⟨htext, hcompile, done, rfl, howns, hused.loaded (by simpa using hb)⟩

theorem askBytes (h : Fits l m state) (path : List UInt8) (isDir : Bool) :
    Alike (m.askBytes path isDir).1 (state.verdict l.setting path isDir).1 ∧
      Fits l (m.askBytes path isDir).2 (state.verdict l.setting path isDir).2 := by
  unfold Matcher.askBytes Matcher.use
  cases state with
  | ready text rs =>
    obtain ⟨htext, hcompile, inst, hlease, howns, hloaded⟩ := id h
    obtain ⟨done, hdone, hsuits, hused⟩ := perform_ask_loaded howns hloaded path isDir
    simp only [hlease, hdone]
    exact ⟨.refl _, h.settle hloaded.own hsuits hused⟩
  | broken text =>
    obtain ⟨htext, inst, hlease, howns, ht, hown⟩ := h
    simp only [hlease, perform_ask_tainted ht hown]
    exact ⟨alike_askRefusal .., htext, inst, rfl, howns, ht, hown⟩
  | closed text =>
    simp only [h.2]
    exact ⟨.refl _, h⟩

theorem filter (h : Fits l m state) (paths : List String) :
    Alike (m.filter paths).1 (state.lines l.setting paths).1 ∧
      Fits l (m.filter paths).2 (state.lines l.setting paths).2 := by
  unfold Matcher.filter Matcher.use
  cases state with
  | ready text rs =>
    obtain ⟨htext, hcompile, inst, hlease, howns, hloaded⟩ := id h
    obtain ⟨done, hdone, hsuits, hused⟩ := perform_filter_loaded howns hloaded paths
    simp only [hlease, hdone]
    exact ⟨.refl _, h.settle hloaded.own hsuits hused⟩
  | broken text =>
    obtain ⟨htext, inst, hlease, howns, ht, hown⟩ := h
    simp only [hlease, perform_filter_tainted ht]
    exact ⟨alike_of_anonymous (anonymous_filterRefusal ..), htext, inst, rfl, howns, ht, hown⟩
  | closed text =>
    simp only [h.2]
    exact ⟨.refl _, h⟩

theorem ignores (h : Fits l m state) (path : String) (isDir : Bool) :
    Alike (m.ignores path isDir).1 (state.flag l.setting (Text.Utf8.encode path) isDir).1 ∧
      Fits l (m.ignores path isDir).2 (state.flag l.setting (Text.Utf8.encode path) isDir).2 := by
  obtain ⟨halike, hfits⟩ := h.askBytes (Text.Utf8.encode path) isDir
  unfold Matcher.ignores Matcher.ask MatcherState.flag
  cases hm : m.askBytes (Text.Utf8.encode path) isDir with
  | mk r m' =>
    cases hstate : state.verdict l.setting (Text.Utf8.encode path) isDir with
    | mk r' state' =>
      rw [hm, hstate] at halike hfits
      rcases r with (_ | _) | _ <;> rcases r' with (_ | _) | _ <;>
        simp_all [Alike, Except.mapError, Failure.anonymous]

theorem close (h : Fits l m state) (hstock : l.Stocked) :
    ∃ m' l', m.close l = (.ok (), m', l') ∧ l'.Stocked ∧ Same l l' ∧ Fits l' m' state.close := by
  unfold Matcher.close
  cases state with
  | ready text rs =>
    obtain ⟨htext, -, inst, hlease, howns, hloaded⟩ := h
    obtain ⟨done, hdone, hsuits, hblank⟩ := perform_destroy_loaded howns hloaded
    obtain ⟨hstock', hsame⟩ := hstock.release hsuits (Or.inr hblank)
    simp only [hlease, hdone]
    exact ⟨_, _, rfl, hstock', hsame, htext, rfl⟩
  | broken text =>
    obtain ⟨htext, inst, hlease, howns, ht, -⟩ := h
    obtain ⟨hstock', hsame⟩ := hstock.release howns (Or.inl ht)
    simp only [hlease, perform_destroy_tainted ht]
    exact ⟨_, _, rfl, hstock', hsame, htext, rfl⟩
  | closed text =>
    simp only [h.2]
    exact ⟨_, _, rfl, hstock, .refl l, h⟩

end Matcher.Fits

/-! ## Filters with several workers -/

theorem alike_merge {own own' : Except Error (List String)}
    (h : own.mapError Error.anonymous = own'.mapError Error.anonymous)
    (others : List (Except Error (List String))) :
    Alike ((Chunks.merge (own :: others)).mapError Failure.error)
      ((Chunks.merge (own' :: others)).mapError Failure.error) := by
  refine alike_of_anonymous ?_
  rw [Chunks.merge_anonymous, Chunks.merge_anonymous, List.map_cons, List.map_cons, h]

namespace Matcher

variable {l : GuestLending} {m : Matcher Guest} {state : MatcherState}

/-- The schedule of the workers has no part in the result of a parallel filter. -/
theorem filterParallel_eq (hstock : l.Stocked) (hopen : m.isClosed = false) {cpus : Nat}
    {paths : List String} {chunks : List (List String)}
    (hcount : ¬ min (l.pool.config.effectiveParallelism cpus) paths.length ≤ 1)
    (hchunks : chunks =
      Chunks.ofList paths (min (l.pool.config.effectiveParallelism cpus) paths.length))
    {own : Except Error (List String)}
    (hown : (m.filter (chunks.headD [])).1 = own.mapError .error) (schedule : List Move) :
    ∃ l', m.filterParallel cpus schedule paths l =
        ((Chunks.merge (own :: chunks.tail.map (workAnswer l.setting.room m.rules))).mapError
          .error, (m.filter (chunks.headD [])).2, l') ∧
      l'.Stocked ∧ Same l l' := by
  obtain ⟨crew, hcrew, hresults, hstock', hsame⟩ :=
    Crew.runAll_waiting hstock m.rules schedule chunks.tail
  refine ⟨crew.lending, ?_, hstock', hsame⟩
  unfold filterParallel
  simp only [hopen, Bool.false_or, decide_eq_true_eq, if_neg hcount, ← hchunks]
  rw [hcrew, hresults]
  cases hm : m.filter (chunks.headD []) with
  | mk r m' =>
    rw [hm] at hown
    obtain rfl : r = own.mapError .error := hown
    cases own <;> rfl

/-- A parallel filter that is given one worker, or a closed matcher, is a filter. -/
theorem filterParallel_eq_filter {cpus : Nat} {paths : List String}
    (h : m.isClosed = true ∨ min (l.pool.config.effectiveParallelism cpus) paths.length ≤ 1)
    (schedule : List Move) :
    m.filterParallel cpus schedule paths l = ((m.filter paths).1, (m.filter paths).2, l) := by
  unfold filterParallel
  simp only
  rw [if_pos (by simpa using h)]

theorem Fits.filterParallel (h : Fits l m state) (hstock : l.Stocked) (cpus : Nat)
    (schedule : List Move) (paths : List String) :
    ∃ r m' l', m.filterParallel cpus schedule paths l = (r, m', l') ∧ l'.Stocked ∧ Same l l' ∧
      Alike r (state.linesParallel l.setting cpus paths).1 ∧
      Fits l m' (state.linesParallel l.setting cpus paths).2 := by
  by_cases hcount : min (l.pool.config.effectiveParallelism cpus) paths.length ≤ 1
  · rw [filterParallel_eq_filter (Or.inr hcount), MatcherState.linesParallel_of_le l.setting hcount]
    exact ⟨_, _, _, rfl, hstock, .refl l, h.filter paths⟩
  rw [MatcherState.linesParallel_of_not_le l.setting hcount]
  simp only [Lending.setting]
  generalize hchunks : Chunks.ofList paths
    (min (l.pool.config.effectiveParallelism cpus) paths.length) = chunks
  obtain ⟨-, hfits⟩ := h.filter (chunks.headD [])
  cases state with
  | ready text rs =>
    obtain ⟨htext, -, inst, hlease, howns, hloaded⟩ := h
    obtain ⟨done, hdone, -⟩ := perform_filter_loaded howns hloaded (chunks.headD [])
    have hopen : m.isClosed = false := by simp [isClosed, hlease]
    have hown : (m.filter (chunks.headD [])).1 =
        ((Seen.found rs).filter l.setting.room (chunks.headD [])).mapError .error := by
      unfold Matcher.filter Matcher.use
      simp only [hlease, hdone]
      rfl
    obtain ⟨l', hparallel, hstock', hsame⟩ :=
      filterParallel_eq hstock hopen hcount hchunks.symm hown schedule
    rw [htext] at hparallel
    exact ⟨_, _, l', hparallel, hstock', hsame, .refl _, hfits⟩
  | broken text =>
    obtain ⟨htext, inst, hlease, howns, ht, -⟩ := h
    have hopen : m.isClosed = false := by simp [isClosed, hlease]
    have hown : (m.filter (chunks.headD [])).1 =
        (filterRefusal inst.name (chunks.headD [])).mapError .error := by
      unfold Matcher.filter Matcher.use
      simp only [hlease, perform_filter_tainted ht]
    obtain ⟨l', hparallel, hstock', hsame⟩ :=
      filterParallel_eq hstock hopen hcount hchunks.symm hown schedule
    rw [htext] at hparallel
    exact ⟨_, _, l', hparallel, hstock', hsame,
      alike_merge (anonymous_filterRefusal ..) _, hfits⟩
  | closed text =>
    rw [filterParallel_eq_filter (Or.inl (by simp [isClosed, h.2]))]
    refine ⟨_, _, _, rfl, hstock, .refl l, ?_, ?_⟩
    · unfold Matcher.filter Matcher.use
      simp only [h.2]
      exact .refl _
    · unfold Matcher.filter Matcher.use
      simp only [h.2]
      exact h

end Matcher

end PathSieve

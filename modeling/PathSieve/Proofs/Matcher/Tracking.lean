/-
  Sessions and the states of their matchers.

  In a session that begins on a new pool, every matcher is in a state and the pool stays
  stocked (`Tracked`). One event changes no state but that of the matcher it is for, and
  changes that as the state says (`Tracked.request`); so the answers to a name are those of
  its state (`Tracked.answersTo`), over any events. As the state of a name hangs on nothing
  but what it has been asked, two sessions that ask the same of a matcher get the same
  answers from it, whatever else they do (`answers_determined`).
-/
import PathSieve.Proofs.Matcher.State

namespace PathSieve

open Instance Lending

/-- Is a matcher in a state, where there is one? -/
def FitsOption (l : GuestLending) : Option (Matcher Guest) → Option MatcherState → Prop
  | none, none => True
  | some m, some state => m.Fits l state
  | _, _ => False

/-- The states with another one under a name. -/
def statesWith (states : Nat → Option MatcherState) (name : Nat) (state : Option MatcherState)
    (n : Nat) : Option MatcherState :=
  if n = name then state else states n

namespace Session

/-- Every matcher of a session is in its state, and the pool is stocked. -/
structure Tracked (s : Session) (t : MatcherState.Setting) (states : Nat → Option MatcherState) :
    Prop where
  stocked : s.lending.Stocked
  setting_eq : s.lending.setting = t
  fits : ∀ n, FitsOption s.lending (s.matcher? n) (states n)

variable {s s' : Session} {t : MatcherState.Setting} {states : Nat → Option MatcherState}

theorem tracked_open {c : Config} {poolId nextId : Nat} (h : open? c poolId nextId = .ok s) :
    s.Tracked s.lending.setting fun _ => none := by
  unfold open? at h
  cases hm : GuestModule.compile c with
  | error e => simp [hm, Except.map] at h
  | ok m =>
    simp only [hm, Except.map, Except.ok.injEq] at h
    subst h
    exact ⟨stocked_new hm poolId nextId, rfl, fun _ => trivial⟩

/-- The setting of a session is given by the configuration alone. -/
theorem setting_open {c : Config} {poolId nextId : Nat} (h : open? c poolId nextId = .ok s) :
    s.lending.setting = ⟨c, roomUnder c.maxPages.toNat⟩ := by
  unfold open? at h
  cases hm : GuestModule.compile c with
  | error e => simp [hm, Except.map] at h
  | ok m =>
    simp only [hm, Except.map, Except.ok.injEq] at h
    subst h
    unfold GuestModule.compile at hm
    split at hm
    · simp only [Except.ok.injEq] at hm
      subst hm
      rfl
    · simp at hm

theorem step_request_of_none {name : Nat} (hm : s.matcher? name = none) (q : Query)
    (schedule : List Move) :
    s.step (.request name q schedule) =
      (some (name, (s.begin name q).1), (s.begin name q).2) := by
  simp only [step, hm]

theorem step_request_of_some {name : Nat} {m : Matcher Guest} (hm : s.matcher? name = some m)
    (q : Query) (schedule : List Move) :
    s.step (.request name q schedule) =
      (some (name, (s.serve name m schedule q).1), (s.serve name m schedule q).2) := by
  simp only [step, hm]

namespace Tracked

/-- One matcher and the pool have changed. -/
theorem put (h : s.Tracked t states) {l : GuestLending} (hstock : l.Stocked)
    (hsame : Same s.lending l) {name : Nat} {m : Option (Matcher Guest)}
    {state : Option MatcherState} (hfits : FitsOption l m state) :
    (s.put name m l).Tracked t (statesWith states name state) := by
  refine ⟨hstock, ?_, fun n => ?_⟩
  · rw [← h.setting_eq]
    show l.setting = s.lending.setting
    unfold Lending.setting
    rw [hsame.module_eq, hsame.config_eq]
  · show FitsOption l (if n = name then m else s.matcher? n) (statesWith states name state n)
    unfold statesWith
    split
    · exact hfits
    · have hn := h.fits n
      revert hn
      cases s.matcher? n <;> cases states n
      · exact id
      · exact id
      · exact id
      · exact fun hn => Matcher.Fits.same hn hsame

/-- Nothing has changed. -/
theorem unchanged (h : s.Tracked t states) {name : Nat} {state : Option MatcherState}
    (hstate : states name = state) : s.Tracked t (statesWith states name state) := by
  have : statesWith states name state = states := by
    funext n
    unfold statesWith
    split
    · next hn => rw [hn, hstate]
    · rfl
  rw [this]
  exact h

theorem begin (h : s.Tracked t states) {name : Nat} (hstate : states name = none) (q : Query) :
    (s.begin name q).1.anonymous = (MatcherState.begin t q).1.anonymous ∧
      (s.begin name q).2.Tracked t (statesWith states name (MatcherState.begin t q).2) := by
  cases q with
  | opens rules =>
    obtain ⟨inst, l, hacq, hstock, hsame, howns, hblank⟩ := h.stocked.acquire
    obtain ⟨done, hsuits, hcompile⟩ := perform_compile_blank howns hblank (Text.unlines rules)
    have hroom : roomUnder l.pool.module.maxPages = t.room := by
      rw [← h.setting_eq, hsame.module_eq]
      rfl
    rw [hroom] at hcompile
    unfold Session.begin MatcherState.begin Matcher.openOn
    simp only [hacq]
    cases hanswer : compileAnswer t.room (Text.unlines rules) with
    | ok rs =>
      rw [hanswer] at hcompile
      obtain ⟨handle, hdone, hloaded⟩ := hcompile
      simp only [hdone]
      refine ⟨trivial, h.put hstock hsame ?_⟩
      refine ⟨rfl, ?_, done, rfl, hsuits, hloaded⟩
      rw [← hanswer, ← hroom]
      rfl
    | error e =>
      rw [hanswer] at hcompile
      obtain ⟨hdone, hblank'⟩ := hcompile
      obtain ⟨hstock', hsame'⟩ := hstock.release hsuits (Or.inr hblank')
      simp only [hdone]
      exact ⟨trivial, h.put hstock' (hsame.trans hsame') trivial⟩
  | _ => exact ⟨rfl, h.unchanged hstate⟩

theorem serve (h : s.Tracked t states) {name : Nat} {m : Matcher Guest} {state : MatcherState}
    (hstate : states name = some state) (hfits : m.Fits s.lending state) (schedule : List Move)
    (q : Query) :
    (s.serve name m schedule q).1.anonymous = (state.serve t q).1.anonymous ∧
      (s.serve name m schedule q).2.Tracked t (statesWith states name (state.serve t q).2) := by
  obtain rfl := h.setting_eq
  have hput : ∀ {m : Matcher Guest} {state : MatcherState}, m.Fits s.lending state →
      (s.put name (some m) s.lending).Tracked s.lending.setting
        (statesWith states name (some state)) :=
    fun hm => h.put h.stocked (.refl _) hm
  cases q with
  | opens rules => exact ⟨rfl, h.unchanged hstate⟩
  | askBytes path isDir =>
    obtain ⟨halike, hfits'⟩ := hfits.askBytes path isDir
    exact ⟨congrArg Answer.verdict halike, hput hfits'⟩
  | ask path isDir =>
    obtain ⟨halike, hfits'⟩ := hfits.askBytes (Text.Utf8.encode path) isDir
    exact ⟨congrArg Answer.verdict halike, hput hfits'⟩
  | ignores path isDir =>
    obtain ⟨halike, hfits'⟩ := hfits.ignores path isDir
    exact ⟨congrArg Answer.flag halike, hput hfits'⟩
  | filter paths =>
    obtain ⟨halike, hfits'⟩ := hfits.filter paths
    exact ⟨congrArg Answer.lines halike, hput hfits'⟩
  | filterParallel cpus paths =>
    obtain ⟨r, m', l', hparallel, hstock, hsame, halike, hfits'⟩ :=
      hfits.filterParallel h.stocked cpus schedule paths
    unfold Session.serve
    simp only [hparallel]
    exact ⟨congrArg Answer.lines halike, h.put hstock hsame (hfits'.same hsame)⟩
  | close =>
    obtain ⟨m', l', hclose, hstock, hsame, hfits'⟩ := hfits.close h.stocked
    unfold Session.serve
    simp only [hclose]
    exact ⟨rfl, h.put hstock hsame hfits'⟩
  | drop =>
    obtain ⟨m', l', hclose, hstock, hsame, -⟩ := hfits.close h.stocked
    unfold Session.serve
    simp only [hclose]
    exact ⟨rfl, h.put hstock hsame trivial⟩

/-- A request is answered as the state says, and changes no other state. -/
theorem request (h : s.Tracked t states) (name : Nat) (q : Query) (schedule : List Move) :
    ∃ answer s', s.step (.request name q schedule) = (some (name, answer), s') ∧
      answer.anonymous = (MatcherState.step t (states name) q).1.anonymous ∧
      s'.Tracked t (statesWith states name (MatcherState.step t (states name) q).2) := by
  have hn := h.fits name
  cases hm : s.matcher? name with
  | none =>
    cases hstate : states name with
    | none => exact ⟨_, _, step_request_of_none hm q schedule, h.begin hstate q⟩
    | some state =>
      rw [hm, hstate] at hn
      exact absurd hn id
  | some m =>
    cases hstate : states name with
    | none =>
      rw [hm, hstate] at hn
      exact absurd hn id
    | some state =>
      rw [hm, hstate] at hn
      exact ⟨_, _, step_request_of_some hm q schedule, h.serve hstate hn schedule q⟩

/-- What happens to the pool alone changes no state. -/
theorem shrink (h : s.Tracked t states) (keep : Nat) :
    (s.step (.shrink keep)).2.Tracked t states :=
  ⟨h.stocked.shrinkTo keep, h.setting_eq, h.fits⟩

theorem elsewhere (h : s.Tracked t states) (count : Nat) :
    (s.step (.elsewhere count)).2.Tracked t states :=
  ⟨⟨h.stocked.usable, h.stocked.idle⟩, h.setting_eq, h.fits⟩

theorem step (h : s.Tracked t states) (e : Event) :
    ∃ states', (s.step e).2.Tracked t states' := by
  cases e with
  | request name q schedule =>
    obtain ⟨answer, s', hstep, -, htracked⟩ := h.request name q schedule
    rw [hstep]
    exact ⟨_, htracked⟩
  | shrink keep => exact ⟨states, h.shrink keep⟩
  | elsewhere count => exact ⟨states, h.elsewhere count⟩

theorem after (h : s.Tracked t states) (events : List Event) :
    ∃ states', (s.after events).Tracked t states' := by
  induction events generalizing s states with
  | nil => exact ⟨states, h⟩
  | cons e events ih =>
    obtain ⟨states', h'⟩ := h.step e
    exact ih h'

/-- The answers that a matcher gives are those of its state. -/
theorem answersTo (h : s.Tracked t states) (name : Nat) (events : List Event) :
    (s.answersTo name events).map Answer.anonymous =
      (MatcherState.answers t (states name) (queriesTo name events)).map Answer.anonymous := by
  induction events generalizing s states with
  | nil => rfl
  | cons e events ih =>
    cases e with
    | request n q schedule =>
      obtain ⟨answer, s', hstep, hanswer, htracked⟩ := h.request n q schedule
      have ih' := ih htracked
      unfold Session.answersTo queriesTo
      simp only [hstep]
      unfold statesWith at ih'
      by_cases hn : n = name
      · subst hn
        rw [if_pos rfl] at ih'
        rw [if_pos rfl, if_pos rfl, List.map_cons, MatcherState.answers, List.map_cons, hanswer,
          ih']
      · rw [if_neg (Ne.symm hn)] at ih'
        rw [if_neg hn, if_neg hn, ih']
    | shrink keep => exact ih (h.shrink keep)
    | elsewhere count => exact ih (h.elsewhere count)

end Tracked

/-! ## Two sessions -/

/-- What is asked of a matcher, from its making on, determines its answers but for the names
    of instances: what is asked of other matchers, before and in between, which instances
    are fresh and which have been used before, and in which order workers move, has no part
    in them. And every instance that waits at the end of any events is as good as new. -/
theorem answers_determined {c : Config} {poolId poolId' nextId nextId' : Nat}
    (hs : open? c poolId nextId = .ok s) (hs' : open? c poolId' nextId' = .ok s')
    {name name' : Nat} {events events' : List Event}
    (hq : queriesTo name events = queriesTo name' events') :
    (s.answersTo name events).map Answer.anonymous =
        (s'.answersTo name' events').map Answer.anonymous ∧
      ∀ inst ∈ (s.after events).lending.pool.idle, inst.Blank := by
  have hset : s'.lending.setting = s.lending.setting := by
    rw [setting_open hs, setting_open hs']
  have htracked' := tracked_open hs'
  rw [hset] at htracked'
  obtain ⟨states, hafter⟩ := (tracked_open hs).after events
  refine ⟨?_, fun inst hinst => (hafter.stocked.idle inst hinst).2⟩
  rw [(tracked_open hs).answersTo, htracked'.answersTo, hq]

/-- A matcher is opened where another has been at work before and is closed in between. -/
def crowded : List Event :=
  [.request 5 (.opens ["a", "!b"]) [], .request 5 (.filter ["a", "b"]) [],
    .request 0 (.opens ["b"]) [], .request 5 .close [],
    .request 0 (.filterParallel 2 ["a", "b"]) [.start 0]]

/-- The same is asked of the only matcher there is. -/
def alone : List Event :=
  [.elsewhere 4, .request 3 (.opens ["b"]) [], .shrink 0,
    .request 3 (.filterParallel 2 ["a", "b"]) []]

theorem answers_determined_crowded :
    open? {} 1 1 = .ok (plain 1 1) ∧ open? {} 2 9 = .ok (plain 2 9) ∧
      queriesTo 0 crowded = queriesTo 3 alone ∧
      ((plain 1 1).answersTo 0 crowded).map Answer.anonymous =
        ((plain 2 9).answersTo 3 alone).map Answer.anonymous := by
  have hq : queriesTo 0 crowded = queriesTo 3 alone := rfl
  exact ⟨open?_plain 1 1, open?_plain 2 9, hq,
    (answers_determined (open?_plain 1 1) (open?_plain 2 9) hq).1⟩

end Session

end PathSieve

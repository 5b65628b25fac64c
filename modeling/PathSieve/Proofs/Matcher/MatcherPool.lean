/-
  The matchers of one pool, over any module.

  A matcher pool is a pool with all the matchers that have been made on it; nobody else
  leases from that pool. Operations come one after the other: matchers are made, open and
  closed ones are asked anything, closed and dropped, and other pools draw ids in between.

  Leases follow open matchers (`leasesFollow_run`): there is one lease for each of them and
  no other, whatever has failed on the way, and the lease of each matcher ends once, by one
  release.
-/
import PathSieve.Proofs.Matcher.Requests

namespace PathSieve

open List

variable {μ σ : Type}

/-- A pool with the matchers that have been made on it, in order. Those dropped have left
    their places empty. -/
structure MatcherPool (μ σ : Type) where
  lending : Lending μ σ
  matchers : List (Option (Matcher σ)) := []

/-- An operation on a matcher pool. -/
inductive MatcherOp where
  /-- A matcher is made from rules. -/
  | make (rules : List String)
  /-- The matcher at a place gets a request. -/
  | request (place : Nat) (q : Query) (schedule : List Move)
  /-- Other pools draw ids. -/
  | elsewhere (count : Nat)

namespace MatcherPool

/-- A new pool, on which no matcher has been made. -/
def fresh (poolId nextId : Nat) (module : μ) (config : Config) : MatcherPool μ σ :=
  ⟨⟨{ id := poolId, module := module, config := config }, nextId⟩, []⟩

/-- The matcher at a place, if it is still there. -/
def matcher? (w : MatcherPool μ σ) (place : Nat) : Option (Matcher σ) :=
  w.matchers[place]?.join

/-- Is there an open matcher at a place? -/
def isOpen (w : MatcherPool μ σ) (place : Nat) : Bool :=
  (w.matcher? place).any (!·.isClosed)

/-- The number of open matchers. -/
def openCount (w : MatcherPool μ σ) : Nat :=
  w.matchers.countP fun m => m.any (!·.isClosed)

/-- The identities of the instances that the matchers have leased. -/
def leased (w : MatcherPool μ σ) : List Identity :=
  w.matchers.flatMap fun m => (Matcher.identity? m).toList

section Steps

variable [Backend σ] [Module μ σ]

/-- Carry an operation out: the answer, if there is one, and the matcher pool after it. -/
def step (w : MatcherPool μ σ) : MatcherOp → Option Answer × MatcherPool μ σ
  | .make rules =>
    match Matcher.openOn rules w.lending with
    | (.ok m, l) => (some (.opened (.ok m.rules)), ⟨l, w.matchers ++ [some m]⟩)
    | (.error failure, l) => (some (.opened (.error failure)), ⟨l, w.matchers⟩)
  | .request place q schedule =>
    match w.matcher? place with
    | none => (some .refused, w)
    | some m =>
      let (answer, m, l) := m.serve w.lending schedule q
      (some answer, ⟨l, w.matchers.set place m⟩)
  | .elsewhere count =>
    (none, { w with lending := { w.lending with nextId := w.lending.nextId + count } })

/-- The matcher pool after operations. -/
def run (w : MatcherPool μ σ) (ops : List MatcherOp) : MatcherPool μ σ :=
  ops.foldl (fun w o => (w.step o).2) w

/-- Does an operation end the lease of the matcher at a place? -/
def endsLease (w : MatcherPool μ σ) (o : MatcherOp) (place : Nat) : Bool :=
  w.isOpen place && !(w.step o).2.isOpen place

/-- How often operations end the lease of the matcher at a place. -/
def endings (w : MatcherPool μ σ) (place : Nat) : List MatcherOp → Nat
  | [] => 0
  | o :: ops =>
    (if w.endsLease o place then 1 else 0) + (w.step o).2.endings place ops

end Steps

variable {w : MatcherPool μ σ} {place : Nat}

theorem isOpen_eq_isSome (w : MatcherPool μ σ) (place : Nat) :
    w.isOpen place = (Matcher.identity? (w.matcher? place)).isSome := by
  unfold isOpen Matcher.identity? Matcher.isClosed
  cases w.matcher? place with
  | none => rfl
  | some m => cases h : m.lease <;> simp [h]

theorem length_leased (w : MatcherPool μ σ) : w.leased.length = w.openCount := by
  unfold leased openCount
  induction w.matchers with
  | nil => rfl
  | cons m matchers ih =>
    rw [flatMap_cons, length_append, ih, countP_cons, Nat.add_comm]
    congr 1
    unfold Matcher.identity? Matcher.isClosed
    cases m with
    | none => rfl
    | some m => cases h : m.lease <;> simp [h]

theorem getElem?_of_matcher? {m : Matcher σ} (h : w.matcher? place = some m) :
    w.matchers[place]? = some (some m) :=
  Option.join_eq_some_iff.mp h

theorem lt_length_of_isOpen (h : w.isOpen place = true) : place < w.matchers.length := by
  unfold isOpen at h
  cases hm : w.matcher? place with
  | none => rw [hm] at h; cases h
  | some m => exact (List.getElem?_eq_some_iff.mp (getElem?_of_matcher? hm)).1

section Transitions

variable [Backend σ] [Module μ σ]

/-- A matcher is made in the next place, or none is made. -/
theorem step_make (w : MatcherPool μ σ) (rules : List String) :
    (∃ m inst l,
      w.step (.make rules) = (some (.opened (.ok m.rules)), ⟨l, w.matchers ++ [some m]⟩) ∧
      m.lease = some inst ∧ m.handle.instanceId = inst.id ∧
      ∀ out, w.lending.Lends out → l.Lends (inst.identity :: out)) ∨
    ∃ failure l, w.step (.make rules) = (some (.opened (.error failure)), ⟨l, w.matchers⟩) ∧
      ∀ out, w.lending.Lends out → l.Lends out := by
  rcases Matcher.openOn_cases rules w.lending with ⟨e, l, hacq, heq⟩ |
    ⟨inst, l, failure, hacq, heq⟩ | ⟨inst, l, handle, hacq, hid, heq⟩ <;> simp only [step, heq]
  · exact .inr ⟨.error e, l, rfl, fun _ h => h.acquire_error hacq⟩
  · refine .inr ⟨failure, _, rfl, fun out h => ?_⟩
    have hlent := (h.acquire_ok hacq).2
    rw [← Instance.identity_work inst (.call (.compile (Text.unlines rules)))] at hlent
    exact hlent.release
  · have hidentity := inst.identity_work (.call (.compile (Text.unlines rules)))
    have hown : handle.instanceId = (inst.work (.call (.compile (Text.unlines rules)))).id :=
      hid.trans (congrArg Identity.id hidentity).symm
    refine .inl ⟨⟨l.pool.id, _, handle, Text.unlines rules⟩, _, l, rfl, rfl, hown, fun out h => ?_⟩
    rw [hidentity]
    exact (h.acquire_ok hacq).2

theorem step_request {m : Matcher σ} (hm : w.matcher? place = some m) (q : Query)
    (schedule : List Move) :
    w.step (.request place q schedule) =
      (some (m.serve w.lending schedule q).1,
        ⟨(m.serve w.lending schedule q).2.2,
          w.matchers.set place (m.serve w.lending schedule q).2.1⟩) := by
  simp only [step, hm]

theorem step_request_of_none (hm : w.matcher? place = none) (q : Query) (schedule : List Move) :
    w.step (.request place q schedule) = (some .refused, w) := by
  simp only [step, hm]

/-- An operation does nothing to a matcher that is there, or what a request to it does. -/
theorem matcher?_step (o : MatcherOp) (hlt : place < w.matchers.length) :
    (w.step o).2.matcher? place = w.matcher? place ∨
      ∃ m q schedule, w.matcher? place = some m ∧
        (w.step o).2.matcher? place = (m.serve w.lending schedule q).2.1 ∧
        (w.step o).2.lending = (m.serve w.lending schedule q).2.2 := by
  cases o with
  | elsewhere count => exact .inl rfl
  | make rules =>
    refine .inl ?_
    rcases w.step_make rules with ⟨m, inst, l, heq, -⟩ | ⟨failure, l, heq, -⟩ <;> rw [heq]
    · exact congrArg Option.join (getElem?_append_left hlt)
    · rfl
  | request other q schedule =>
    cases hm : w.matcher? other with
    | none =>
      rw [step_request_of_none hm]
      exact .inl rfl
    | some m =>
      rw [step_request hm]
      by_cases hplace : other = place
      · subst hplace
        exact .inr ⟨m, q, schedule, hm, congrArg Option.join (getElem?_set_self hlt), rfl⟩
      · exact .inl (congrArg Option.join (getElem?_set_ne hplace))

theorem length_le_step (w : MatcherPool μ σ) (o : MatcherOp) :
    w.matchers.length ≤ (w.step o).2.matchers.length := by
  cases o with
  | elsewhere count => exact Nat.le_refl _
  | make rules =>
    rcases w.step_make rules with ⟨m, inst, l, heq, -⟩ | ⟨failure, l, heq, -⟩ <;> simp [heq]
  | request other q schedule =>
    cases hm : w.matcher? other with
    | none => rw [step_request_of_none hm]
    | some m =>
      rw [step_request hm]
      exact Nat.le_of_eq length_set.symm

/-- A place at which there is no open matcher any more stays so. -/
theorem isOpen_step_of_not_isOpen (o : MatcherOp) (hlt : place < w.matchers.length)
    (h : w.isOpen place = false) : (w.step o).2.isOpen place = false := by
  rcases matcher?_step o hlt with heq | ⟨m, q, schedule, hm, heq, -⟩
  · rwa [isOpen, heq]
  · rw [isOpen_eq_isSome, hm] at h
    rw [isOpen_eq_isSome, heq]
    cases m.served w.lending schedule q with
    | kept hidentity _ _ => rwa [hidentity]
    | ended inst hlease hnone _ =>
      rw [hnone]
      rfl

/-- A matcher that has just been made is open. -/
theorem isOpen_step_of_le (o : MatcherOp) (hle : w.matchers.length ≤ place)
    (hlt : place < (w.step o).2.matchers.length) : (w.step o).2.isOpen place = true := by
  cases o with
  | elsewhere count => exact absurd hlt (Nat.not_lt.mpr hle)
  | make rules =>
    rcases w.step_make rules with ⟨m, inst, l, heq, hlease, -⟩ | ⟨failure, l, heq, -⟩ <;>
      rw [heq] at hlt ⊢
    · obtain rfl : place = w.matchers.length := by
        rw [length_append, length_singleton] at hlt
        omega
      simp [isOpen, matcher?, Matcher.isClosed, hlease]
    · exact absurd hlt (Nat.not_lt.mpr hle)
  | request other q schedule =>
    cases hm : w.matcher? other with
    | none =>
      rw [step_request_of_none hm] at hlt
      exact absurd hlt (Nat.not_lt.mpr hle)
    | some m =>
      rw [step_request hm, length_set] at hlt
      exact absurd hlt (Nat.not_lt.mpr hle)

/-! ## How often a lease ends -/

/-- The lease of a matcher that is there ends as long as it is open, and once. -/
theorem endings_of_lt (ops : List MatcherOp) (hlt : place < w.matchers.length) :
    w.endings place ops + ((w.run ops).isOpen place).toNat = (w.isOpen place).toNat := by
  induction ops generalizing w with
  | nil => simp [endings, run]
  | cons o ops ih =>
    have hrun := ih (Nat.lt_of_lt_of_le hlt (length_le_step w o))
    show (if w.endsLease o place then 1 else 0) + _ + ((run _ ops).isOpen place).toNat = _
    unfold endsLease
    cases hopen : w.isOpen place with
    | false =>
      rw [isOpen_step_of_not_isOpen o hlt hopen] at hrun
      simpa using hrun
    | true =>
      rw [Nat.add_assoc, hrun]
      cases (w.step o).2.isOpen place <;> rfl

/-- The lease of a matcher that is made later ends once, or the matcher is open. -/
theorem endings_of_le (ops : List MatcherOp) (hle : w.matchers.length ≤ place)
    (hlt : place < (w.run ops).matchers.length) :
    w.endings place ops + ((w.run ops).isOpen place).toNat = 1 := by
  induction ops generalizing w with
  | nil => exact absurd hlt (Nat.not_lt.mpr hle)
  | cons o ops ih =>
    have hnone : w.isOpen place = false := by
      rw [← Bool.not_eq_true]
      exact fun hopen => absurd (lt_length_of_isOpen hopen) (Nat.not_lt.mpr hle)
    show (if w.endsLease o place then 1 else 0) + _ + ((run _ ops).isOpen place).toNat = _
    rw [endsLease, hnone, Bool.false_and, if_neg (by decide), Nat.zero_add]
    by_cases hstep : place < (w.step o).2.matchers.length
    · rw [endings_of_lt ops hstep, isOpen_step_of_le o hle hstep]
      rfl
    · exact ih (Nat.le_of_not_lt hstep) hlt

end Transitions

/-! ## What the pool lends -/

/-- The pool lends what the matchers have leased, and the handle of every matcher belongs to
    its instance. -/
structure Sound (w : MatcherPool μ σ) : Prop where
  lends : w.lending.Lends w.leased
  owned : ∀ m inst, some m ∈ w.matchers → m.lease = some inst → m.handle.instanceId = inst.id

theorem sound_fresh (poolId nextId : Nat) (module : μ) (config : Config) :
    Sound (fresh (σ := σ) poolId nextId module config) :=
  ⟨Lending.lends_new poolId nextId module config, fun _ _ hm => absurd hm not_mem_nil⟩

section Runs

variable [Backend σ] [Module μ σ]

theorem Sound.make (h : w.Sound) (rules : List String) : (w.step (.make rules)).2.Sound := by
  rcases w.step_make rules with ⟨m, inst, l, heq, hlease, hid, hlends⟩ | ⟨failure, l, heq, hlends⟩
  · rw [heq]
    constructor
    · have hleased : leased ⟨l, w.matchers ++ [some m]⟩ = w.leased ++ [inst.identity] := by
        simp [leased, Matcher.identity?, hlease]
      rw [hleased]
      exact (hlends _ h.lends).perm (perm_append_singleton _ _).symm
    · intro m' inst' hm' hlease'
      rcases mem_append.mp hm' with hm' | hm'
      · exact h.owned m' inst' hm' hlease'
      · obtain rfl := Option.some.inj (mem_singleton.mp hm')
        obtain rfl := Option.some.inj (hlease.symm.trans hlease')
        exact hid
  · rw [heq]
    exact ⟨hlends _ h.lends, h.owned⟩

theorem Sound.request (h : w.Sound) (place : Nat) (q : Query) (schedule : List Move) :
    (w.step (.request place q schedule)).2.Sound := by
  cases hm : w.matcher? place with
  | none => rwa [step_request_of_none hm]
  | some m =>
    have hget := getElem?_of_matcher? hm
    obtain ⟨rest, hperm, hset⟩ :=
      exists_perm_flatMap_set (fun m => (Matcher.identity? m).toList) hget
    have hlent : w.lending.Lends ((Matcher.identity? (some m)).toList ++ rest) := h.lends.perm hperm
    rw [step_request hm]
    cases m.served w.lending schedule q with
    | kept hidentity hhandle hlends =>
      refine ⟨(hlends _ hlent).perm ?_, fun m' inst' hm' hlease' => ?_⟩
      · rw [← hidentity]
        exact (hset _).symm
      · rcases mem_or_eq_of_mem_set hm' with hm' | hm'
        · exact h.owned m' inst' hm' hlease'
        · -- the identity says that it is still the instance of before
          rw [← hm', Matcher.identity?, Option.bind_some, hlease', Option.map_some, eq_comm]
            at hidentity
          obtain ⟨inst, hlease, hinst⟩ := Option.map_eq_some_iff.mp hidentity
          rw [hhandle m' hm'.symm, h.owned m inst (mem_of_getElem? hget) hlease]
          exact congrArg Identity.id hinst
    | ended inst hlease hnone hrelease =>
      have hafter := hset (m.serve w.lending schedule q).2.1
      rw [hnone] at hafter
      constructor
      · have hidentity : Matcher.identity? (some m) =
            some (inst.work (.call (.drop m.handle))).identity := by
          rw [Instance.identity_work, Matcher.identity?, Option.bind_some, hlease, Option.map_some]
        rw [hidentity] at hlent
        show Lending.Lends _ (leased _)
        rw [hrelease]
        exact hlent.release.perm hafter.symm
      · intro m' inst' hm' hlease'
        rcases mem_or_eq_of_mem_set hm' with hm' | hm'
        · exact h.owned m' inst' hm' hlease'
        · rw [← hm', Matcher.identity?, Option.bind_some, hlease'] at hnone
          cases hnone

theorem Sound.step (h : w.Sound) (o : MatcherOp) : (w.step o).2.Sound := by
  cases o with
  | make rules => exact h.make rules
  | request place q schedule => exact h.request place q schedule
  | elsewhere count => exact ⟨h.lends.draw count, h.owned⟩

theorem Sound.run (h : w.Sound) (ops : List MatcherOp) : (w.run ops).Sound := by
  induction ops generalizing w with
  | nil => exact h
  | cons o ops ih => exact ih (h.step o)

/-- When a lease ends its rules have been forgotten, and the instance comes back to the pool;
    nothing else happens to the pool. -/
theorem Sound.lending_of_endsLease (h : w.Sound) {o : MatcherOp}
    (hends : w.endsLease o place = true) :
    ∃ m inst, w.matcher? place = some m ∧ m.lease = some inst ∧
      (w.step o).2.lending = w.lending.release (inst.work (.call (.drop m.handle))) ∧
      ∃ ending, inst.heard (.call (.drop m.handle)) =
        if inst.tainted then [] else [⟨.destroyMatcher m.handle.raw, ending⟩] := by
  obtain ⟨hopen, hclosed⟩ := Bool.and_eq_true_iff.mp hends
  rw [Bool.not_eq_true'] at hclosed
  rcases matcher?_step o (lt_length_of_isOpen hopen) with heq | ⟨m, q, schedule, hm, heq, hl⟩
  · rw [isOpen, heq] at hclosed
    exact absurd (hopen.symm.trans hclosed) (by decide)
  · cases m.served w.lending schedule q with
    | kept hidentity _ _ =>
      rw [isOpen_eq_isSome, heq, hidentity, ← hm, ← isOpen_eq_isSome] at hclosed
      exact absurd (hopen.symm.trans hclosed) (by decide)
    | ended inst hlease _ hrelease =>
      refine ⟨m, inst, hm, hlease, hl.trans hrelease, ?_⟩
      cases ht : inst.tainted with
      | true => exact ⟨.returned, Instance.heard_of_tainted ht _⟩
      | false =>
        exact Instance.heard_drop ht
          (h.owned m inst (mem_of_getElem? (getElem?_of_matcher? hm)) hlease)

/-- As long as it is open a matcher has one instance and one handle. -/
theorem identity?_of_not_endsLease {o : MatcherOp} (hopen : w.isOpen place = true)
    (hends : w.endsLease o place = false) :
    Matcher.identity? ((w.step o).2.matcher? place) = Matcher.identity? (w.matcher? place) ∧
      ((w.step o).2.matcher? place).map Matcher.handle =
        (w.matcher? place).map Matcher.handle := by
  have hstill : (w.step o).2.isOpen place = true := by
    simpa [endsLease, hopen] using hends
  rcases matcher?_step o (lt_length_of_isOpen hopen) with heq | ⟨m, q, schedule, hm, heq, -⟩
  · rw [heq]
    exact ⟨rfl, rfl⟩
  · rw [isOpen_eq_isSome, heq] at hstill
    rw [heq, hm]
    cases m.served w.lending schedule q with
    | kept hidentity hhandle _ =>
      refine ⟨hidentity, ?_⟩
      cases hm' : (m.serve w.lending schedule q).2.1 with
      | none =>
        rw [hm'] at hstill
        cases hstill
      | some m' => exact congrArg some (hhandle m' hm')
    | ended inst _ hnone _ =>
      rw [hnone] at hstill
      cases hstill

theorem endsLease_of_isEnd {q : Query} (hq : q.isEnd = true) (hopen : w.isOpen place = true)
    (schedule : List Move) : w.endsLease (.request place q schedule) place = true := by
  have hlt := lt_length_of_isOpen hopen
  cases hm : w.matcher? place with
  | none =>
    rw [isOpen, hm] at hopen
    cases hopen
  | some m =>
    rw [endsLease, hopen, step_request hm, isOpen_eq_isSome, matcher?, getElem?_set_self hlt,
      Option.join_some, m.identity?_serve_of_isEnd w.lending schedule hq]
    rfl

/-- Leases follow open matchers, with this many endings of the lease of each. -/
structure LeasesFollow (w : MatcherPool μ σ) (endings : Nat → Nat) : Prop where
  /-- There is one lease for each open matcher, and no other. -/
  leased : w.lending.pool.leased = w.openCount
  /-- All other instances are idle or have been discarded. -/
  accounted : (w.lending.pool.idle.length + w.lending.pool.discarded : Int) =
    w.lending.pool.created - w.lending.pool.leased
  /-- No instance is leased by two matchers, or leased and idle, and all belong to the pool. -/
  apart : Identity.Apart w.lending.pool.id w.lending.nextId
    (w.lending.pool.idle.map Instance.identity ++ w.leased)
  /-- A matcher is made, and is open then, or none is made. -/
  makes : ∀ rules,
    (∃ m l, w.step (.make rules) = (some (.opened (.ok m.rules)), ⟨l, w.matchers ++ [some m]⟩) ∧
      m.isClosed = false) ∨
    ∃ failure l, w.step (.make rules) = (some (.opened (.error failure)), ⟨l, w.matchers⟩)
  /-- The lease of every matcher that has been made has ended once, or the matcher is open. -/
  once : ∀ place < w.matchers.length, endings place + (w.isOpen place).toNat = 1
  /-- Until then it is a lease of one instance, with one handle there. -/
  stays : ∀ o place, w.isOpen place = true → w.endsLease o place = false →
    Matcher.identity? ((w.step o).2.matcher? place) = Matcher.identity? (w.matcher? place) ∧
      ((w.step o).2.matcher? place).map Matcher.handle = (w.matcher? place).map Matcher.handle
  /-- To close and to drop an open matcher ends its lease. -/
  ends : ∀ q place schedule, q.isEnd = true → w.isOpen place = true →
    w.endsLease (.request place q schedule) place = true
  /-- A lease ends by one release of its instance. Before that the guest has been asked to
      forget the rules, unless the instance is tainted. -/
  released : ∀ o place, w.endsLease o place = true →
    ∃ m inst, w.matcher? place = some m ∧ m.lease = some inst ∧
      (w.step o).2.lending = w.lending.release (inst.work (.call (.drop m.handle))) ∧
      ∃ ending, inst.heard (.call (.drop m.handle)) =
        if inst.tainted then [] else [⟨.destroyMatcher m.handle.raw, ending⟩]
  /-- A closed matcher unwinds at every question, and nothing changes; to close or drop it
      leaves the pool as it is. -/
  closed : ∀ place m, w.matcher? place = some m → m.isClosed = true → ∀ q schedule,
    (q.isQuestion = true → ∃ answer, w.step (.request place q schedule) = (some answer, w) ∧
      answer.panic? = some Matcher.closedText) ∧
    (q.isEnd = true → (w.step (.request place q schedule)).2.lending = w.lending)

theorem Sound.leasesFollow (h : w.Sound) {endings : Nat → Nat}
    (honce : ∀ place < w.matchers.length, endings place + (w.isOpen place).toNat = 1) :
    w.LeasesFollow endings := by
  constructor
  case leased => rw [h.lends.leased_eq, length_leased]
  case accounted =>
    have hcreated := h.lends.created_eq
    have hleased := h.lends.leased_eq
    omega
  case apart => exact h.lends.apart
  case makes =>
    intro rules
    rcases w.step_make rules with ⟨m, inst, l, heq, hlease, -⟩ | ⟨failure, l, heq, -⟩
    · exact .inl ⟨m, l, heq, by simp [Matcher.isClosed, hlease]⟩
    · exact .inr ⟨failure, l, heq⟩
  case once => exact honce
  case stays => exact fun o place hopen hends => identity?_of_not_endsLease hopen hends
  case ends => exact fun q place schedule hq hopen => endsLease_of_isEnd hq hopen schedule
  case released => exact fun o place hends => h.lending_of_endsLease hends
  case closed =>
    intro place m hm hclosed q schedule
    rw [step_request hm]
    refine ⟨fun hq => ?_, fun hq => m.serve_end_of_isClosed hclosed _ schedule hq⟩
    obtain ⟨answer, hserve, hpanic⟩ := m.serve_question_of_isClosed hclosed w.lending schedule hq
    obtain ⟨hlt, hget⟩ := List.getElem?_eq_some_iff.mp (getElem?_of_matcher? hm)
    exact ⟨answer, by rw [hserve, ← hget, set_getElem_self], hpanic⟩

/-- On a new pool over any module, leases follow open matchers after any operations. -/
theorem leasesFollow_run (poolId nextId : Nat) (module : μ) (config : Config)
    (ops : List MatcherOp) :
    ((fresh poolId nextId module config : MatcherPool μ σ).run ops).LeasesFollow
      ((fresh poolId nextId module config : MatcherPool μ σ).endings · ops) :=
  ((sound_fresh poolId nextId module config).run ops).leasesFollow fun _ hlt =>
    endings_of_le ops (Nat.zero_le _) hlt

end Runs

end MatcherPool

end PathSieve

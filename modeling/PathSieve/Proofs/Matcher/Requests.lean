/-
  Requests to one matcher, over any module.

  A request leaves the lease of a matcher where it is, and the pool lends after it what it has
  lent before; or it ends the lease, by one release of the instance, on which the rules have
  been forgotten before that (`Served`). What a guest answers is left open, and so is whether
  it traps or unwinds, whether an instance is refused to a worker, and in which order the
  workers move. A closed matcher unwinds at every question (`serve_question_of_isClosed`).
-/
import PathSieve.Proofs.Matcher.Moves
import PathSieve.Proofs.Matcher.Session

namespace PathSieve

open List

variable {μ σ α : Type}

namespace Query

/-- Is something asked about paths? -/
def isQuestion : Query → Bool
  | .askBytes _ _ | .ask _ _ | .ignores _ _ | .filter _ | .filterParallel _ _ => true
  | .opens _ | .close | .drop => false

/-- Is the matcher to be given up? -/
def isEnd : Query → Bool
  | .close | .drop => true
  | _ => false

end Query

namespace Answer

/-- The text with which a result unwinds. -/
def panicOf? : Except Failure α → Option String
  | .error (.panic text) => some text
  | _ => none

/-- The text with which an answer unwinds. -/
def panic? : Answer → Option String
  | .opened r => panicOf? r
  | .verdict r => panicOf? r
  | .flag r => panicOf? r
  | .lines r => panicOf? r
  | .closed r => panicOf? r
  | .refused => none

end Answer

namespace Matcher

/-- The identity of the instance that a matcher has leased, if there is a matcher and it is
    open. -/
def identity? (m : Option (Matcher σ)) : Option Identity :=
  (m.bind Matcher.lease).map Instance.identity

/-- Has a matcher the instance and the handle that it had? -/
structure Stays (m m' : Matcher σ) : Prop where
  identity_eq : identity? (some m') = identity? (some m)
  handle_eq : m'.handle = m.handle

variable {m : Matcher σ} {l : Lending μ σ}

theorem lease_eq_none (hclosed : m.isClosed = true) : m.lease = none :=
  Option.isNone_iff_eq_none.mp hclosed

variable [Backend σ]

/-- Whatever the host does with the instance of a matcher, it stays at the matcher. -/
theorem stays_use (m : Matcher σ) {a : Action σ α} {c : HostCall}
    (h : ∀ inst, (a.perform inst).2 = inst.work (.call c)) : Stays m (m.use a).2 := by
  unfold Matcher.use
  cases hm : m.lease with
  | none => exact ⟨rfl, rfl⟩
  | some inst => exact ⟨by simp [identity?, hm, h], rfl⟩

theorem stays_askBytes (m : Matcher σ) (path : List UInt8) (isDir : Bool) :
    Stays m (m.askBytes path isDir).2 :=
  stays_use m fun inst => (inst.work_ask m.handle path isDir).symm

theorem stays_ignores (m : Matcher σ) (path : String) (isDir : Bool) :
    Stays m (m.ignores path isDir).2 := by
  have hask := stays_askBytes m (Text.Utf8.encode path) isDir
  unfold ignores ask
  rcases h : m.askBytes (Text.Utf8.encode path) isDir with ⟨(_ | _) | _, m'⟩ <;> rwa [h] at hask

theorem stays_filter (m : Matcher σ) (paths : List String) : Stays m (m.filter paths).2 :=
  stays_use m fun inst => (inst.work_filter m.handle paths).symm

/-- To close is to forget the rules and to give the instance back, unless that has been
    done. -/
theorem close_eq (m : Matcher σ) (l : Lending μ σ) :
    (m.close l).2 = match m.lease with
      | none => (m, l)
      | some inst =>
        ({ m with lease := none }, l.release (inst.work (.call (.drop m.handle)))) := by
  unfold Matcher.close
  cases m.lease with
  | none => rfl
  | some inst =>
    dsimp only
    rw [Instance.work_drop]

variable [Module μ σ]

/-- All that making a matcher can do: there is no instance for it, or the compile fails and the
    lease ends, or the matcher is made. -/
theorem openOn_cases (rules : List String) (l : Lending μ σ) :
    (∃ e l', l.acquire = (.error e, l') ∧ openOn rules l = (.error (.error e), l')) ∨
    (∃ inst l' failure, l.acquire = (.ok inst, l') ∧ openOn rules l =
      (.error failure, l'.release (inst.work (.call (.compile (Text.unlines rules)))))) ∨
    ∃ inst l' handle, l.acquire = (.ok inst, l') ∧ handle.instanceId = inst.id ∧
      openOn rules l = (.ok ⟨l'.pool.id, some (inst.work (.call (.compile (Text.unlines rules)))),
        handle, Text.unlines rules⟩, l') := by
  unfold openOn
  cases hacq : l.acquire with
  | mk result l' =>
    cases result with
    | error e => exact .inl ⟨e, l', rfl, rfl⟩
    | ok inst =>
      refine .inr ?_
      simp only [Instance.work_compile]
      cases hcompile : (Instance.compile (Text.unlines rules)).perform inst with
      | mk result next =>
        cases result with
        | error failure => exact .inl ⟨inst, l', failure, rfl, by simp only [hcompile]⟩
        | ok handle =>
          refine .inr ⟨inst, l', handle, rfl, ?_, by simp only [hcompile]⟩
          exact Instance.instanceId_of_compile (congrArg Prod.fst hcompile)

/-- Ask something of a matcher: the answer, the matcher after it if it is still there, and the
    pool. -/
def serve (m : Matcher σ) (l : Lending μ σ) (schedule : List Move) :
    Query → Answer × Option (Matcher σ) × Lending μ σ
  | .opens _ => (.refused, some m, l)
  | .askBytes path isDir =>
    let (r, m) := m.askBytes path isDir
    (.verdict r, some m, l)
  | .ask path isDir =>
    let (r, m) := m.ask path isDir
    (.verdict r, some m, l)
  | .ignores path isDir =>
    let (r, m) := m.ignores path isDir
    (.flag r, some m, l)
  | .filter paths =>
    let (r, m) := m.filter paths
    (.lines r, some m, l)
  | .filterParallel cpus paths =>
    let (r, m, l) := m.filterParallel cpus schedule paths l
    (.lines r, some m, l)
  | .close =>
    let (r, m, l) := m.close l
    (.closed r, some m, l)
  | .drop =>
    let (r, _, l) := m.close l
    (.closed r, none, l)

/-- What a request does to a matcher and its pool: the lease stays where it is, or it ends by
    one release of the instance after the rules have been forgotten there. -/
inductive Served (m : Matcher σ) (l : Lending μ σ) (m' : Option (Matcher σ))
    (l' : Lending μ σ) : Prop where
  | kept (identity_eq : identity? m' = identity? (some m))
    (handle_eq : ∀ m₁ ∈ m', m₁.handle = m.handle)
    (lends : ∀ out, l.Lends out → l'.Lends out)
  | ended (inst : Instance σ) (lease_eq : m.lease = some inst) (identity_eq : identity? m' = none)
    (release_eq : l' = l.release (inst.work (.call (.drop m.handle))))

omit [Module μ σ] in
theorem Stays.served {m' : Matcher σ} {l' : Lending μ σ} (h : Stays m m')
    (hlends : ∀ out, l.Lends out → l'.Lends out) : Served m l (some m') l' :=
  .kept h.identity_eq (fun _ hm => Option.some.inj hm ▸ h.handle_eq) hlends

/-- The workers of a parallel filter give back all that they have leased. -/
theorem served_filterParallel (m : Matcher σ) (l : Lending μ σ) (cpus : Nat)
    (schedule : List Move) (paths : List String) :
    Served m l (some (m.filterParallel cpus schedule paths l).2.1)
      (m.filterParallel cpus schedule paths l).2.2 := by
  unfold filterParallel
  dsimp only
  split
  · exact (stays_filter m paths).served fun _ h => h
  · exact (stays_filter m _).served fun out h => (Crew.Lends.of_waiting h _).lends_runAll schedule

/-- All that a request can do. -/
theorem served (m : Matcher σ) (l : Lending μ σ) (schedule : List Move) (q : Query) :
    Served m l (m.serve l schedule q).2.1 (m.serve l schedule q).2.2 := by
  have hsame : ∀ out, l.Lends out → l.Lends out := fun _ h => h
  cases q with
  | opens rules => exact (⟨rfl, rfl⟩ : Stays m m).served hsame
  | askBytes path isDir => exact (stays_askBytes m path isDir).served hsame
  | ask path isDir => exact (stays_askBytes m _ isDir).served hsame
  | ignores path isDir => exact (stays_ignores m path isDir).served hsame
  | filter paths => exact (stays_filter m paths).served hsame
  | filterParallel cpus paths => exact served_filterParallel m l cpus schedule paths
  | close =>
    show Served m l (some (m.close l).2.1) (m.close l).2.2
    rw [close_eq]
    cases hm : m.lease with
    | none => exact (⟨rfl, rfl⟩ : Stays m m).served hsame
    | some inst => exact .ended inst hm rfl rfl
  | drop =>
    show Served m l none (m.close l).2.2
    rw [close_eq]
    cases hm : m.lease with
    | none => exact .kept (by simp [identity?, hm]) (fun _ h => by cases h) hsame
    | some inst => exact .ended inst hm rfl rfl

/-- A matcher that is given up has no lease any more. -/
theorem identity?_serve_of_isEnd (m : Matcher σ) (l : Lending μ σ) (schedule : List Move)
    {q : Query} (hq : q.isEnd = true) : identity? (m.serve l schedule q).2.1 = none := by
  cases q with
  | close =>
    show identity? (some (m.close l).2.1) = none
    rw [close_eq]
    cases hm : m.lease with
    | none => simp [identity?, hm]
    | some inst => rfl
  | drop => rfl
  | _ => cases hq

/-- A closed matcher unwinds at every question, and changes nothing. -/
theorem serve_question_of_isClosed (hclosed : m.isClosed = true) (l : Lending μ σ)
    (schedule : List Move) {q : Query} (hq : q.isQuestion = true) :
    ∃ answer, m.serve l schedule q = (answer, some m, l) ∧ answer.panic? = some closedText := by
  have huse {α : Type} (a : Action σ α) : m.use a = (.error (.panic closedText), m) := by
    unfold Matcher.use
    rw [lease_eq_none hclosed]
  cases q with
  | askBytes path isDir => exact ⟨_, by simp only [serve, askBytes, huse]; rfl, rfl⟩
  | ask path isDir => exact ⟨_, by simp only [serve, ask, askBytes, huse]; rfl, rfl⟩
  | ignores path isDir => exact ⟨_, by simp only [serve, ignores, ask, askBytes, huse]; rfl, rfl⟩
  | filter paths => exact ⟨_, by simp only [serve, filter, huse]; rfl, rfl⟩
  | filterParallel cpus paths =>
    refine ⟨.lines (.error (.panic closedText)), ?_, rfl⟩
    simp only [serve, filterParallel, hclosed, Bool.true_or, if_true, filter, huse]
  | _ => cases hq

/-- To give a closed matcher up once more does nothing to the pool. -/
theorem serve_end_of_isClosed (hclosed : m.isClosed = true) (l : Lending μ σ)
    (schedule : List Move) {q : Query} (hq : q.isEnd = true) :
    (m.serve l schedule q).2.2 = l := by
  have hclose : (m.close l).2.2 = l := by rw [close_eq, lease_eq_none hclosed]
  cases q with
  | close => exact hclose
  | drop => exact hclose
  | _ => cases hq

end Matcher

end PathSieve

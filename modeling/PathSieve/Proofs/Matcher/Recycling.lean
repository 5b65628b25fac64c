/-
  What becomes of an instance whose guest has unwound.

  A call into a guest that unwinds ends the lease of the instance: the matcher that was to be
  made is not, or a worker of a parallel filter is lost. So the instance comes back to its
  pool, in whatever state the guest has left it. The pool looks at the taint, and a panic
  leaves none. The instance is discarded if another call has trapped on the way out; else it
  waits in the pool, and the next lease is a lease of this instance (`recycles_run`). A trap
  in the place of the panic would have kept it from that.
-/
import PathSieve.Proofs.Matcher.MatcherPool
import PathSieve.Sandbox.Faulty

namespace PathSieve

open List

variable {μ σ : Type}

namespace Lending

/-- What a pool does with an instance that has been lent for a call of the host: what the guest
    has trapped at is discarded, and all else is lent again, whatever has come of the call. -/
structure Recycles [Backend σ] [Module μ σ] (l : Lending μ σ) (inst : Instance σ) (call : HostCall)
    (l' : Lending μ σ) : Prop where
  kept : (∀ x ∈ inst.heard (.call call), x.ending ≠ .trapped) →
    l'.pool.idle = inst.work (.call call) :: l.pool.idle ∧
      ∃ next, l'.acquire = (.ok (inst.work (.call call)), next)
  discarded : (∃ x ∈ inst.heard (.call call), x.ending = .trapped) →
    l'.pool.idle = l.pool.idle ∧ l'.pool.discarded = l.pool.discarded + 1

variable {l : Lending μ σ} {inst : Instance σ} {out : List Identity}

theorem Lends.recycles [Backend σ] [Module μ σ] (h : l.Lends (inst.identity :: out))
    (huntainted : inst.tainted = false) (call : HostCall) :
    l.Recycles inst call (l.release (inst.work (.call call))) := by
  have hown : (inst.work (.call call)).poolId = l.pool.id :=
    (congrArg Identity.poolId (Instance.identity_work inst (.call call))).trans h.own
  have htainted : (inst.work (.call call)).tainted =
      (inst.heard (.call call)).any (·.ending == .trapped) := by
    rw [Instance.tainted_work, huntainted]
    rfl
  constructor
  · intro hnone
    have hfalse : (inst.work (.call call)).tainted = false := by
      rw [htainted, any_eq_false]
      exact fun x hx => by simpa using hnone x hx
    have hback : l.release (inst.work (.call call)) =
        { l with pool := l.pool.countReturned.pushIdle (inst.work (.call call)) } := by
      rw [Lending.release, Pool.release, if_neg (not_not_intro hown), hfalse, if_neg (by decide)]
    rw [hback]
    exact ⟨rfl, _, rfl⟩
  · rintro ⟨x, hx, htrap⟩
    have htrue : (inst.work (.call call)).tainted = true := by
      rw [htainted, any_eq_true]
      exact ⟨x, hx, by rw [htrap]; rfl⟩
    rw [Lending.release, Pool.release, if_neg (not_not_intro hown), if_pos htrue]
    exact ⟨rfl, rfl⟩

end Lending

namespace MatcherPool

variable [Backend σ] [Module μ σ]

/-- What becomes of the instances on which the matchers and workers of a pool unwind. -/
structure RecyclesUnwound (w : MatcherPool μ σ) : Prop where
  /-- The instance on which a matcher was to be made. -/
  making : ∀ rules text, (w.step (.make rules)).1 = some (.opened (.error (.panic text))) →
    ∃ inst l, w.lending.acquire = (.ok inst, l) ∧
      l.Recycles inst (.compile (Text.unlines rules)) (w.step (.make rules)).2.lending
  /-- The instance of a worker of a parallel filter, after any moves of all of them. -/
  filtering : ∀ (rules : String) (chunks : List (List String)) (moves : List Move) (c : Crew μ σ),
    c = moves.foldl (Crew.apply rules) ⟨chunks.map .waiting, w.lending⟩ →
      ∀ i chunk inst, c.workers[i]? = some (.working chunk inst) →
        c.lending.Recycles inst (.work rules chunk) (c.finish rules i).lending

/-- On a new pool over any module, an instance that a call has unwound on is discarded if
    another call has trapped, and is lent again if none has. -/
theorem recycles_run (poolId nextId : Nat) (module : μ) (config : Config) (ops : List MatcherOp) :
    ((fresh poolId nextId module config : MatcherPool μ σ).run ops).RecyclesUnwound := by
  have hlends := ((sound_fresh (σ := σ) poolId nextId module config).run ops).lends
  constructor
  case making =>
    intro rules text hpanic
    generalize (fresh poolId nextId module config : MatcherPool μ σ).run ops = w at *
    rcases Matcher.openOn_cases rules w.lending with ⟨e, l, -, heq⟩ |
      ⟨inst, l, failure, hacq, heq⟩ | ⟨inst, l, handle, -, -, heq⟩
    · simp [step, heq] at hpanic
    · obtain ⟨huntainted, hlent⟩ := hlends.acquire_ok hacq
      refine ⟨inst, l, hacq, ?_⟩
      simp only [step, heq]
      exact hlent.recycles huntainted _
    · simp [step, heq] at hpanic
  case filtering =>
    intro rules chunks moves c hc i chunk inst hw
    have hcrew : c.Lends _ := hc ▸ (Crew.Lends.of_waiting hlends chunks).foldl moves
    obtain ⟨huntainted, rest, hlent, -⟩ := hcrew.working hw
    rw [Crew.finish_of_working hw]
    exact hlent.recycles huntainted _

/-- A new pool over guests of which every compile unwinds. -/
def panicky : MatcherPool FaultyModule FaultyGuest :=
  fresh 1 1 ⟨⟨1, 4096⟩, ⟨none, [⟨.createMatcher, 1, 0, .panic⟩]⟩, 0⟩ {}

/-- The instance that a compile has unwound on waits untainted in its pool, and is handed out
    by the next lease. -/
theorem panicky_lends_again :
    ((panicky.step (.make ["*.log"])).1.bind Answer.panic? =
      some "injected panic in create_matcher") ∧
    (panicky.step (.make ["*.log"])).2.lending.pool.stats = ⟨1, 0, 1, 0⟩ ∧
    (panicky.step (.make ["*.log"])).2.lending.acquire.1.toOption.map
      (fun inst => (inst.id, inst.tainted)) = some (1, false) := by
  decide +kernel

end MatcherPool

end PathSieve

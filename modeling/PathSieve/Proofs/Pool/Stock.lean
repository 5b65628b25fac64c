/-
  What waits in a pool over the guest that evaluates rule sets.

  A pool is stocked if every instance that waits in it is blank and belongs to it. A new
  pool of a usable configuration is stocked. A lease takes a blank instance from a stocked
  pool, a new one if none waits, and never fails; an instance that comes back blank or
  tainted leaves the pool stocked.
-/
import PathSieve.Proofs.Host.Loaded
import PathSieve.Pool.Basic

namespace PathSieve

/-- A pool over the guest that evaluates rule sets. -/
abbrev GuestLending := Lending GuestModule Guest

namespace GuestModule

/-- The pages that a module's guests begin with are at least one and no more than they may
    grow to. -/
structure Usable (m : GuestModule) : Prop where
  one_le : 1 ≤ m.maxPages
  initial_le : m.initialPages ≤ m.maxPages

theorem usable_of_compile {c : Config} {m : GuestModule} (h : compile c = .ok m) :
    m.Usable := by
  unfold compile at h
  cases hc : c.check with
  | error e => simp [hc] at h
  | ok _ =>
    have hv := c.check_eq_ok_iff.mp hc
    simp only [hc, Except.ok.injEq] at h
    subst h
    exact ⟨Nat.le_trans hv.one_le_initialPages hv.initialPages_le_maxPages,
      hv.initialPages_le_maxPages⟩

end GuestModule

namespace Lending

open Instance

variable {l l' l'' : GuestLending} {inst : Instance Guest}

/-- Is it the same pool, with the same module and configuration? -/
structure Same (l l' : GuestLending) : Prop where
  id_eq : l'.pool.id = l.pool.id
  module_eq : l'.pool.module = l.pool.module
  config_eq : l'.pool.config = l.pool.config

theorem Same.refl (l : GuestLending) : Same l l := ⟨rfl, rfl, rfl⟩

theorem Same.trans (h : Same l l') (h' : Same l' l'') : Same l l'' :=
  ⟨h'.id_eq.trans h.id_eq, h'.module_eq.trans h.module_eq, h'.config_eq.trans h.config_eq⟩

/-- Does an instance belong to a pool? -/
def Owns (l : GuestLending) (inst : Instance Guest) : Prop :=
  inst.Suits l.pool.id l.pool.module.maxPages

theorem Same.owns (h : Same l l') (ho : l.Owns inst) : l'.Owns inst := by
  unfold Owns
  rw [h.id_eq, h.module_eq]
  exact ho

/-- Every instance that waits belongs to the pool and is blank. -/
structure Stocked (l : GuestLending) : Prop where
  usable : l.pool.module.Usable
  idle : ∀ inst ∈ l.pool.idle, l.Owns inst ∧ inst.Blank

theorem stocked_new {c : Config} {m : GuestModule} (h : GuestModule.compile c = .ok m)
    (poolId nextId : Nat) :
    Stocked ⟨{ id := poolId, module := m, config := c }, nextId⟩ :=
  ⟨GuestModule.usable_of_compile h, by simp⟩

namespace Stocked

/-- A fresh instance is blank. -/
theorem instantiate (h : l.Stocked) :
    ∃ inst l', l.instantiate = (.ok inst, l') ∧ l'.Stocked ∧ Same l l' ∧ l'.Owns inst ∧
      inst.Blank := by
  refine ⟨_, _, rfl, ⟨h.usable, h.idle⟩, ⟨rfl, rfl, rfl⟩, ?_, rfl, rfl, rfl⟩
  exact ⟨rfl, Guest.sound_fresh .., rfl, h.usable.initial_le, h.usable.one_le⟩

/-- A lease does not fail and takes a blank instance. -/
theorem acquire (h : l.Stocked) :
    ∃ inst l', l.acquire = (.ok inst, l') ∧ l'.Stocked ∧ Same l l' ∧ l'.Owns inst ∧
      inst.Blank := by
  unfold Lending.acquire Pool.popIdle?
  cases hidle : l.pool.idle with
  | nil =>
    obtain ⟨inst, l', hmade, hstock, hsame, howns, hblank⟩ := h.instantiate
    rw [hmade]
    exact ⟨inst, _, rfl, ⟨hstock.usable, hstock.idle⟩, ⟨hsame.id_eq, hsame.module_eq,
      hsame.config_eq⟩, howns, hblank⟩
  | cons inst rest =>
    have hinst := h.idle inst (by rw [hidle]; simp)
    refine ⟨inst, _, rfl, ⟨h.usable, fun i hi => ?_⟩, ⟨rfl, rfl, rfl⟩, hinst.1, hinst.2⟩
    have hi' : i ∈ rest := hi
    exact h.idle i (by rw [hidle]; exact List.mem_cons_of_mem _ hi')

/-- What comes back tainted is let go, and what comes back blank waits. -/
theorem release (h : l.Stocked) (ho : l.Owns inst) (hi : inst.tainted = true ∨ inst.Blank) :
    (l.release inst).Stocked ∧ Same l (l.release inst) := by
  unfold Lending.release Pool.release
  rw [if_neg (not_not_intro ho.poolId_eq)]
  cases ht : inst.tainted with
  | true => exact ⟨⟨h.usable, h.idle⟩, ⟨rfl, rfl, rfl⟩⟩
  | false =>
    have hblank : inst.Blank := hi.resolve_left (by rw [ht]; decide)
    refine ⟨⟨h.usable, fun i hi => ?_⟩, ⟨rfl, rfl, rfl⟩⟩
    rcases List.mem_cons.mp hi with rfl | hi
    · exact ⟨ho, hblank⟩
    · exact h.idle i hi

theorem shrinkTo (h : l.Stocked) (keep : Nat) :
    Stocked { l with pool := (l.pool.shrinkTo keep).2 } :=
  ⟨h.usable, fun i hi => h.idle i (List.mem_of_mem_drop hi)⟩

end Stocked

end Lending

end PathSieve

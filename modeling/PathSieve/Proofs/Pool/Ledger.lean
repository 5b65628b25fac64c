/-
  The instances that are out of their pools.

  A holding is an instance on a lease, or a bare one. The ledger has all holdings. It also
  keeps roll, by identity, of every instance that was made, lost or dropped; no pool looks at
  the roll, so the counters of the pools can be checked against it. Each entry into the
  ledger comes with what it does to the counts.
-/
import Mathlib.Data.List.Perm.Basic
import PathSieve.Pool.Basic
import PathSieve.Proofs.Host.Touch

namespace PathSieve

open List

variable {σ : Type}

/-- Who an instance is, whatever is done to it. -/
structure Identity where
  id : Nat
  poolId : Nat
  name : String
  deriving DecidableEq, Repr

namespace Instance

def identity (inst : Instance σ) : Identity :=
  ⟨inst.id, inst.poolId, inst.name⟩

theorem keeps_identity_call {α : Type} (b : Identity) (entry : EntryPoint) (f : σ → Reply α × σ) :
    Action.Keeps (fun inst => inst.identity = b) (call entry f) := by
  intro inst h
  cases ht : inst.tainted with
  | true => rwa [perform_call_of_tainted ht]
  | false =>
    rw [perform_call ht]
    rcases f inst.guest with ⟨_ | _ | _, g⟩ <;> exact h

/-- No touch changes who an instance is. -/
theorem invariant_identity [Backend σ] (b : Identity) :
    Invariant fun inst : Instance σ => inst.identity = b := by
  intro inst t h
  cases t with
  | alloc size =>
    exact Action.keeps_ite (Action.keeps_fail _) (Action.keeps_bind
      (keeps_identity_call b .alloc _) fun _ => Action.keeps_pure _) inst h
  | dealloc ptr len => exact keeps_identity_call b .dealloc _ inst h
  | createMatcher ptr len => exact keeps_identity_call b .createMatcher _ inst h
  | destroyMatcher handle =>
    exact Action.keeps_bind (keeps_rawOf handle) (fun _ =>
      keeps_identity_call b .destroyMatcher _) inst h
  | isMatch handle ptr len isDir =>
    exact Action.keeps_bind (keeps_rawOf handle) (fun _ =>
      keeps_identity_call b .isMatch _) inst h
  | batchFilter handle ptr len info =>
    exact Action.keeps_bind (keeps_rawOf handle) (fun _ =>
      keeps_identity_call b .batchFilter _) inst h
  | store start bytes =>
    show ((store start bytes).perform inst).2.identity = b
    by_cases hin : start + bytes.length ≤ inst.memorySize
    · rw [perform_store hin]
      exact h
    · rw [perform_store_of_lt (Nat.lt_of_not_le hin)]
      exact h
  | taint => exact h

@[simp] theorem identity_touch [Backend σ] (inst : Instance σ) (t : Touch) :
    (inst.touch t).identity = inst.identity :=
  invariant_identity inst.identity inst t rfl

end Instance

/-- One element of a list, and what is left beside it when it stays or is replaced. -/
theorem exists_perm_set {α : Type} {l : List α} {i : Nat} {a : α} (h : l[i]? = some a) :
    ∃ rest, l ~ a :: rest ∧ l.eraseIdx i = rest ∧ ∀ b, l.set i b ~ b :: rest := by
  obtain ⟨hi, rfl⟩ := List.getElem?_eq_some_iff.mp h
  exact ⟨_, (getElem_cons_eraseIdx_perm hi).symm, rfl, set_perm_cons_eraseIdx hi⟩

theorem map_modify_of_eq {α β : Type} {f : α → α} {g : α → β} (h : ∀ a, g (f a) = g a)
    (l : List α) (i : Nat) : (l.modify i f).map g = l.map g := by
  induction l generalizing i with
  | nil => simp
  | cons a l ih => cases i <;> simp [h, ih]

/-- An instance out of its pool: on a lease of a pool, or bare. -/
structure Holding (σ : Type) where
  lease? : Option Nat
  inst : Instance σ

/-- The instances that are out, and the roll of those made, lost and dropped. -/
structure Ledger (σ : Type) where
  held : List (Holding σ) := []
  made : List Identity := []
  /-- Instances that nobody can give back any more, those let go by a pool that is not
      theirs among them. -/
  lost : List Identity := []
  /-- Instances that came back tainted or were let go while they were idle. -/
  dropped : List Identity := []

namespace Ledger

/-- Put an instance on the roll of those made. -/
def make (l : Ledger σ) (inst : Instance σ) : Ledger σ :=
  { l with made := inst.identity :: l.made }

/-- Lend an instance out. -/
def hold (l : Ledger σ) (pool : Nat) (inst : Instance σ) : Ledger σ :=
  { l with held := ⟨some pool, inst⟩ :: l.held }

/-- The holding at a place ends. -/
def yield (l : Ledger σ) (place : Nat) : Ledger σ :=
  { l with held := l.held.eraseIdx place }

/-- Put an instance on the roll of those lost. -/
def lose (l : Ledger σ) (inst : Instance σ) : Ledger σ :=
  { l with lost := inst.identity :: l.lost }

/-- Put instances on the roll of those dropped. -/
def drop (l : Ledger σ) (gone : List (Instance σ)) : Ledger σ :=
  { l with dropped := gone.map Instance.identity ++ l.dropped }

/-- Enter what becomes of an instance that is given to a pool. -/
def enter (l : Ledger σ) (pool : Nat) (inst : Instance σ) : Ledger σ :=
  if inst.poolId ≠ pool then l.lose inst
  else if inst.tainted then l.drop [inst]
  else l

/-- Take the instance at a place out of its lease. -/
def unwrap (l : Ledger σ) (place : Nat) : Ledger σ :=
  { l with held := l.held.modify place fun h => { h with lease? := none } }

/-- Touch the instance at a place. -/
def touch [Backend σ] (l : Ledger σ) (place : Nat) (t : Touch) : Ledger σ :=
  { l with held := l.held.modify place fun h => { h with inst := h.inst.touch t } }

/-- Lose the instance at a place. -/
def loseAt (l : Ledger σ) (place : Nat) : Ledger σ :=
  match l.held[place]? with
  | none => l
  | some h => (l.yield place).lose h.inst

/-- Where the instances are that do not wait in a pool. -/
def placed (l : Ledger σ) : List Identity :=
  l.held.map (·.inst.identity) ++ l.lost ++ l.dropped

/-- The instances of a pool that were acquired and have not come back to it. -/
def out (l : Ledger σ) (pool : Nat) : Nat :=
  (l.held.map (·.inst.identity) ++ l.lost).countP (·.poolId = pool)

/-- The instances that a pool has made. -/
def madeBy (l : Ledger σ) (pool : Nat) : Nat :=
  l.made.countP (·.poolId = pool)

/-- The instances of a pool that were dropped. -/
def droppedOf (l : Ledger σ) (pool : Nat) : Nat :=
  l.dropped.countP (·.poolId = pool)

variable {l : Ledger σ} {place : Nat} {h : Holding σ}

@[simp] theorem countP_placed_hold (l : Ledger σ) (pool : Nat) (inst : Instance σ)
    (q : Identity → Bool) :
    (l.hold pool inst).placed.countP q = l.placed.countP q + [inst.identity].countP q := by
  simp [hold, placed, countP_cons]

@[simp] theorem countP_placed_drop (l : Ledger σ) (gone : List (Instance σ))
    (q : Identity → Bool) :
    (l.drop gone).placed.countP q =
      l.placed.countP q + (gone.map Instance.identity).countP q := by
  simp only [drop, placed, countP_append]
  omega

@[simp] theorem countP_placed_lose (l : Ledger σ) (inst : Instance σ) (q : Identity → Bool) :
    (l.lose inst).placed.countP q = l.placed.countP q + [inst.identity].countP q := by
  simp only [lose, placed, countP_append, countP_cons, countP_nil]
  omega

theorem countP_placed_yield (hh : l.held[place]? = some h) (q : Identity → Bool) :
    l.placed.countP q = (l.yield place).placed.countP q + [h.inst.identity].countP q := by
  obtain ⟨rest, hold, hrest, -⟩ := exists_perm_set hh
  simp only [placed, yield, hrest, countP_append, (hold.map _).countP_eq, map_cons, countP_cons,
    countP_nil]
  omega

@[simp] theorem out_hold (l : Ledger σ) (pool id : Nat) (inst : Instance σ) :
    (l.hold pool inst).out id = l.out id + if inst.poolId = id then 1 else 0 := by
  simp [hold, out, countP_cons, Instance.identity]

@[simp] theorem out_lose (l : Ledger σ) (inst : Instance σ) (id : Nat) :
    (l.lose inst).out id = l.out id + if inst.poolId = id then 1 else 0 := by
  simp only [lose, out, countP_append, countP_cons, Instance.identity, decide_eq_true_eq]
  omega

theorem out_yield (hh : l.held[place]? = some h) (id : Nat) :
    l.out id = (l.yield place).out id + if h.inst.poolId = id then 1 else 0 := by
  obtain ⟨rest, hold, hrest, -⟩ := exists_perm_set hh
  simp only [out, yield, hrest, countP_append, (hold.map _).countP_eq, map_cons, countP_cons,
    Instance.identity, decide_eq_true_eq]
  omega

@[simp] theorem madeBy_make (l : Ledger σ) (inst : Instance σ) (id : Nat) :
    (l.make inst).madeBy id = l.madeBy id + if inst.poolId = id then 1 else 0 := by
  simp [make, madeBy, countP_cons, Instance.identity]

@[simp] theorem droppedOf_drop (l : Ledger σ) (gone : List (Instance σ)) (id : Nat) :
    (l.drop gone).droppedOf id = l.droppedOf id + gone.countP (·.poolId = id) := by
  simp only [drop, droppedOf, countP_append, countP_map, Nat.add_comm]
  rfl

@[simp] theorem made_make (l : Ledger σ) (inst : Instance σ) :
    (l.make inst).made = inst.identity :: l.made := rfl

@[simp] theorem placed_make (l : Ledger σ) (inst : Instance σ) :
    (l.make inst).placed = l.placed := rfl

@[simp] theorem out_make (l : Ledger σ) (inst : Instance σ) (id : Nat) :
    (l.make inst).out id = l.out id := rfl

@[simp] theorem droppedOf_make (l : Ledger σ) (inst : Instance σ) (id : Nat) :
    (l.make inst).droppedOf id = l.droppedOf id := rfl

@[simp] theorem droppedOf_hold (l : Ledger σ) (pool : Nat) (inst : Instance σ) (id : Nat) :
    (l.hold pool inst).droppedOf id = l.droppedOf id := rfl

@[simp] theorem droppedOf_yield (l : Ledger σ) (place id : Nat) :
    (l.yield place).droppedOf id = l.droppedOf id := rfl

@[simp] theorem droppedOf_lose (l : Ledger σ) (inst : Instance σ) (id : Nat) :
    (l.lose inst).droppedOf id = l.droppedOf id := rfl

@[simp] theorem out_drop (l : Ledger σ) (gone : List (Instance σ)) (id : Nat) :
    (l.drop gone).out id = l.out id := rfl

/-- To enter what becomes of an instance takes nothing out of anybody's hands. -/
@[simp] theorem held_enter (l : Ledger σ) (pool : Nat) (inst : Instance σ) :
    (l.enter pool inst).held = l.held := by
  unfold enter
  split
  · rfl
  · split <;> rfl

end Ledger

end PathSieve

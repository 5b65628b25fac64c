/-
  The configuration of an engine: how many 64 KiB pages a guest's memory has at
  first and at most, and how many workers a parallel filter may use.

  A configuration is usable when `1 ≤ initial pages ≤ maximum pages ≤ 65536` and the
  number of workers, if given, is not zero (`Config.Valid`). `Config.check` reports
  the first of these that fails, in a fixed order, and agrees with `Valid`
  (`check_eq_ok_iff`).
-/
import PathSieve.Error

namespace PathSieve

/-- Bytes in a page of guest memory. -/
def pageSize : Nat := 65536

/-- Pages that 32-bit pointers can address. -/
def maxAddressablePages : Nat := 65536

/-- Page limits of a guest's memory and the number of workers, if fixed. -/
structure Config where
  initialPages : UInt32 := 1
  maxPages : UInt32 := 4096
  parallelism : Option UInt64 := none
  deriving DecidableEq, Repr

namespace Config

instance : Inhabited Config := ⟨{}⟩

/-- What a usable configuration satisfies. -/
structure Valid (c : Config) : Prop where
  one_le_initialPages : 1 ≤ c.initialPages.toNat
  initialPages_le_maxPages : c.initialPages.toNat ≤ c.maxPages.toNat
  maxPages_le : c.maxPages.toNat ≤ maxAddressablePages
  parallelism_ne_zero : c.parallelism ≠ some 0

/-- Why a configuration is not usable. -/
inductive Violation where
  | noInitialPages
  | tooManyPages (maxPages : Nat)
  | initialAboveMax (initialPages maxPages : Nat)
  | noWorkers
  deriving DecidableEq, Repr

/-- The wording of a violation. -/
def Violation.message : Violation → String
  | .noInitialPages => "initialMemoryPages must be at least 1"
  | .tooManyPages maxPages =>
    s!"maxMemoryPages {maxPages} exceeds the 32-bit address space ({maxAddressablePages} pages)"
  | .initialAboveMax initialPages maxPages =>
    s!"initialMemoryPages ({initialPages}) is larger than maxMemoryPages ({maxPages})"
  | .noWorkers => "parallelism must be at least 1"

/-- The first violation of a configuration, if there is one. -/
def violation? (c : Config) : Option Violation :=
  if c.initialPages.toNat = 0 then some .noInitialPages
  else if maxAddressablePages < c.maxPages.toNat then some (.tooManyPages c.maxPages.toNat)
  else if c.maxPages.toNat < c.initialPages.toNat then
    some (.initialAboveMax c.initialPages.toNat c.maxPages.toNat)
  else if c.parallelism = some 0 then some .noWorkers
  else none

/-- Accept a usable configuration, and report why another is not. -/
def check (c : Config) : Except Error Unit :=
  match c.violation? with
  | none => .ok ()
  | some v => .error (.config (.validation v.message))

/-- The number of workers that may run at once, where `cpus` is the machine's own number. -/
def effectiveParallelism (c : Config) (cpus : Nat) : Nat :=
  max 1 (match c.parallelism with
    | some n => n.toNat
    | none => cpus)

/-- The largest size in bytes that a guest's memory may reach. -/
def maxMemoryBytes (c : Config) : Nat :=
  c.maxPages.toNat * pageSize

theorem violation?_eq_none_iff (c : Config) : c.violation? = none ↔ c.Valid := by
  unfold violation?
  constructor
  · intro h
    by_cases h₁ : c.initialPages.toNat = 0
    · simp [h₁] at h
    by_cases h₂ : maxAddressablePages < c.maxPages.toNat
    · simp [h₁, h₂] at h
    by_cases h₃ : c.maxPages.toNat < c.initialPages.toNat
    · simp [h₁, h₂, h₃] at h
    by_cases h₄ : c.parallelism = some 0
    · simp [h₁, h₂, h₃, h₄] at h
    exact ⟨by omega, by omega, by omega, h₄⟩
  · intro hparts
    obtain ⟨h₁, h₂, h₃, h₄⟩ := hparts
    rw [if_neg (by omega), if_neg (by omega), if_neg (by omega), if_neg h₄]

theorem check_eq_ok_iff (c : Config) : c.check = .ok () ↔ c.Valid := by
  rw [← violation?_eq_none_iff]
  unfold check
  split <;> simp_all

/-- A configuration that is not usable is refused as such, and not as unreadable. -/
theorem check_eq_error (c : Config) (h : ¬ c.Valid) :
    ∃ reason, c.check = .error (.config (.validation reason)) := by
  rw [← violation?_eq_none_iff] at h
  unfold check
  split
  · contradiction
  · exact ⟨_, rfl⟩

end Config

end PathSieve

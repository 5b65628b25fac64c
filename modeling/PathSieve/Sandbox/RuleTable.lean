/-
  The compiled rule sets of a guest, by handle.

  Handles are drawn from a counter that runs through the positive 32-bit integers and
  then begins again; a handle that is still in use is passed over. So a handle that was
  given up does not come back until the counter has gone all the way round.
-/
import PathSieve.Rule.Set

namespace PathSieve

/-- Rule sets by handle. -/
structure RuleTable where
  /-- The handle to try next. -/
  next : Nat
  /-- The entries, newest first. -/
  entries : List (Nat × RuleSet)

namespace RuleTable

/-- The largest handle. -/
def maxHandle : Nat := 0x7fffffff

/-- A table without entries. -/
def empty : RuleTable :=
  ⟨1, []⟩

/-- The handle after a given one. -/
def after (handle : Nat) : Nat :=
  if maxHandle ≤ handle then 1 else handle + 1

/-- The first unused handle from `handle` on, looking at no more than `tries` others
    before it. -/
def unused (entries : List (Nat × RuleSet)) (handle : Nat) : Nat → Nat
  | 0 => handle
  | tries + 1 =>
    if entries.any fun e => e.1 = handle then unused entries (after handle) tries else handle

/-- Add a rule set under a fresh handle. -/
def insert (t : RuleTable) (rs : RuleSet) : Nat × RuleTable :=
  let handle := unused t.entries t.next t.entries.length
  (handle, ⟨after handle, (handle, rs) :: t.entries⟩)

/-- The rule set under a handle. -/
def get? (t : RuleTable) (handle : Nat) : Option RuleSet :=
  (t.entries.find? fun e => e.1 = handle).map Prod.snd

/-- The table without the entry under a handle. -/
def erase (t : RuleTable) (handle : Nat) : RuleTable :=
  { t with entries := t.entries.filter fun e => e.1 ≠ handle }

/-- The number of entries. -/
def size (t : RuleTable) : Nat :=
  t.entries.length

end RuleTable

end PathSieve

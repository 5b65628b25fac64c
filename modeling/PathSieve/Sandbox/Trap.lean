/-
  What can go wrong inside a guest.

  A guest is entered through six entry points. A fault inside one of them ends the
  call with a trap, which carries its cause; the wording is fixed by `Trap.message`
  alone. Hosts show a trap with the word `trap` in front (`Trap.report`).
-/

namespace PathSieve

/-- The entry points of a guest. -/
inductive EntryPoint where
  | alloc
  | dealloc
  | createMatcher
  | destroyMatcher
  | isMatch
  | batchFilter
  deriving DecidableEq, Repr

namespace EntryPoint

/-- Every entry point, once. -/
def all : List EntryPoint :=
  [.alloc, .dealloc, .createMatcher, .destroyMatcher, .isMatch, .batchFilter]

/-- The name under which a guest exports the entry point. -/
def label : EntryPoint → String
  | .alloc => "alloc"
  | .dealloc => "dealloc"
  | .createMatcher => "create_matcher"
  | .destroyMatcher => "destroy_matcher"
  | .isMatch => "is_match"
  | .batchFilter => "batch_filter"

/-- The entry point with a given name. -/
def ofLabel? (text : String) : Option EntryPoint :=
  all.find? fun e => e.label == text

theorem ofLabel?_label (e : EntryPoint) : ofLabel? e.label = some e := by
  cases e <;> decide

end EntryPoint

/-- The cause that ended a call into a guest. -/
inductive Trap where
  /-- A range that does not lie inside the memory. -/
  | outOfBounds (ptr len memory : Nat)
  /-- A freed size too large to be rounded up. -/
  | freeOverflow
  /-- A freed pointer at which no block is live. -/
  | freeUnallocated (ptr : Nat)
  /-- A freed size that is not the size of the block at that pointer. -/
  | freeMismatch (ptr allocated freed : Nat)
  /-- No room for the text of the kept paths. -/
  | resultExhausted
  /-- A path that is still rooted after the root was taken off it. -/
  | unrooted (entry : EntryPoint)
  /-- A fault with a wording of its own. -/
  | custom (text : String)
  deriving DecidableEq, Repr

namespace Trap

/-- The complaint about a path that is not under the root of the rules. -/
def unrootedText : String := "path is expected to be under the root"

/-- The wording of a trap. -/
def message : Trap → String
  | .outOfBounds ptr len memory =>
    s!"out of bounds memory access (ptr={ptr}, len={len}, mem={memory})"
  | .freeOverflow => "dealloc size overflow"
  | .freeUnallocated ptr => s!"dealloc of unallocated pointer {ptr}"
  | .freeMismatch ptr allocated freed =>
    s!"dealloc size mismatch at {ptr} (allocated {allocated}, freed {freed})"
  | .resultExhausted => "out of memory while writing batch result"
  | .unrooted entry => entry.label ++ " panicked: " ++ unrootedText
  | .custom text => text

/-- The wording with which a host reports a trap. -/
def report (t : Trap) : String :=
  "trap: " ++ t.message

end Trap

end PathSieve

/-
  The memory of a guest: a whole number of 64 KiB pages, all zero at first, that can
  grow up to a ceiling and never shrinks.

  Only bytes that have been written are kept, so a memory of many pages costs nothing
  until it is used. What a memory shows is its size and its byte at every place
  (`byteAt`); both are zero beyond what was written.
-/
import Std.Data.TreeMap
import PathSieve.Config.Basic

namespace PathSieve

/-- The memory of a guest. -/
structure Memory where
  pages : Nat
  maxPages : Nat
  /-- The bytes that have been written, by their place. -/
  cells : Std.TreeMap Nat UInt8

namespace Memory

/-- A fresh memory. -/
def fresh (pages maxPages : Nat) : Memory :=
  ⟨pages, maxPages, {}⟩

/-- The size in bytes. -/
def size (m : Memory) : Nat :=
  pageSize * m.pages

/-- The byte at a place. -/
def byteAt (m : Memory) (i : Nat) : UInt8 :=
  m.cells.getD i 0

/-- The `len` bytes from `start` on. -/
def load (m : Memory) (start len : Nat) : List UInt8 :=
  (List.range' start len).map m.byteAt

/-- Write bytes from `i` on. -/
def writeCells (cells : Std.TreeMap Nat UInt8) (i : Nat) : List UInt8 → Std.TreeMap Nat UInt8
  | [] => cells
  | b :: bs => writeCells (cells.insert i b) (i + 1) bs

/-- The memory with bytes written from `start` on. -/
def store (m : Memory) (start : Nat) (bytes : List UInt8) : Memory :=
  { m with cells := writeCells m.cells start bytes }

/-- The memory with `delta` more pages, unless that passes the ceiling. -/
def grow? (m : Memory) (delta : Nat) : Option Memory :=
  if m.pages + delta ≤ m.maxPages then some { m with pages := m.pages + delta } else none

/-- Does a range lie inside the memory? -/
def covers (m : Memory) (ptr len : Nat) : Bool :=
  ptr + len ≤ m.size

/-- The bytes of a range, or a trap if it does not lie inside. -/
def slice (m : Memory) (ptr len : Nat) : Except Trap (List UInt8) :=
  if m.covers ptr len then .ok (m.load ptr len) else .error (.outOfBounds ptr len m.size)

/-- The memory with a range overwritten, or a trap if it does not lie inside. -/
def overwrite (m : Memory) (ptr : Nat) (bytes : List UInt8) : Except Trap Memory :=
  if m.covers ptr bytes.length then .ok (m.store ptr bytes)
  else .error (.outOfBounds ptr bytes.length m.size)

theorem getD_writeCells (cells : Std.TreeMap Nat UInt8) (start i : Nat) (bytes : List UInt8) :
    (writeCells cells start bytes).getD i 0 =
      if start ≤ i ∧ i < start + bytes.length then bytes.getD (i - start) 0
      else cells.getD i 0 := by
  induction bytes generalizing cells start with
  | nil => rw [if_neg (by simp only [List.length_nil]; omega)]; rfl
  | cons b bs ih =>
    rw [writeCells, ih, List.length_cons]
    by_cases hi : start = i
    · subst hi
      rw [if_neg (by omega), if_pos (by omega), Nat.sub_self, Std.TreeMap.getD_insert_self]
      rfl
    · have hcmp : compare start i ≠ .eq := by simpa using hi
      rw [Std.TreeMap.getD_insert, if_neg hcmp]
      by_cases hr : start + 1 ≤ i ∧ i < start + 1 + bs.length
      · rw [if_pos hr, if_pos (by omega), show i - start = (i - (start + 1)) + 1 by omega]
        rfl
      · rw [if_neg hr, if_neg (by omega)]

/-- Writing changes the bytes of its range and no other. -/
theorem byteAt_store (m : Memory) (start i : Nat) (bytes : List UInt8) :
    (m.store start bytes).byteAt i =
      if start ≤ i ∧ i < start + bytes.length then bytes.getD (i - start) 0
      else m.byteAt i :=
  getD_writeCells ..

@[simp] theorem size_store (m : Memory) (start : Nat) (bytes : List UInt8) :
    (m.store start bytes).size = m.size := rfl

@[simp] theorem length_load (m : Memory) (start len : Nat) : (m.load start len).length = len := by
  simp [load]

/-- What was written is read back. -/
theorem load_store_self (m : Memory) (start : Nat) (bytes : List UInt8) :
    (m.store start bytes).load start bytes.length = bytes := by
  apply List.ext_getElem
  · simp
  · intro i h₁ h₂
    simp only [load, List.getElem_map, List.getElem_range', byteAt_store]
    rw [if_pos (by omega)]
    simp [h₂]

end Memory

end PathSieve

/-
  Cutting a list into chunks, and putting the results of chunks together.

  A list is cut into stretches of equal length, of which the last takes what is over.
  Results are put together by the place of their chunks: all kept elements in order if
  no chunk has failed, and else every failure with its place.
-/
import PathSieve.Error

namespace PathSieve.Chunks

/-- The number of chunks that a list of `len` elements is cut into for a number of workers:
    no more than there are elements, and at least one. -/
def count (len workers : Nat) : Nat :=
  max 1 (min workers (max len 1))

/-- Where each of the chunks of a list begins and ends. -/
def ranges (len workers : Nat) : List (Nat × Nat) :=
  let n := count len workers
  let base := len / n
  (List.range n).map fun i => (i * base, if i + 1 = n then len else i * base + base)

/-- The elements of a list in a range. -/
def slice {α : Type} (xs : List α) (range : Nat × Nat) : List α :=
  (xs.drop range.1).take (range.2 - range.1)

/-- The chunks of a list. -/
def ofList {α : Type} (xs : List α) (workers : Nat) : List (List α) :=
  (ranges xs.length workers).map (slice xs)

/-- The failed results, with their places. -/
def failures {α : Type} (results : List (Except Error (List α))) : List (Nat × Error) :=
  results.zipIdx.filterMap fun
    | (.error e, worker) => some (worker, e)
    | (.ok _, _) => none

/-- The elements of all results that have not failed, in order. -/
def elements {α : Type} (results : List (Except Error (List α))) : List α :=
  results.flatMap fun
    | .ok kept => kept
    | .error _ => []

/-- All results as one. -/
def merge {α : Type} (results : List (Except Error (List α))) : Except Error (List α) :=
  match failures results with
  | [] => .ok (elements results)
  | fs => .error (.parallel fs)

@[simp] theorem length_ranges (len workers : Nat) :
    (ranges len workers).length = count len workers := by
  simp [ranges]

@[simp] theorem length_ofList {α : Type} (xs : List α) (workers : Nat) :
    (ofList xs workers).length = count xs.length workers := by
  simp [ofList]

end PathSieve.Chunks

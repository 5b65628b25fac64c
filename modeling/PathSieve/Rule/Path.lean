/-
  Paths below the root of a rule set, as bytes.

  A path that is asked about may begin with `./` or with the root. `relative?` takes
  that off and refuses a path that is rooted even then. The levels above a path are
  those that its components give: pieces between slashes that are neither empty nor a
  single full stop, except that a full stop counts in front. Each level above is the
  text up to the end of a component, as written, and the last is the empty path. All of
  them are beginnings of the path, so their lengths say which they are.
-/
import PathSieve.Glob.Basic
import PathSieve.Text.Lines

namespace PathSieve.Path

open Glob (slash dot)

/-- A path without a leading slash, if it has one. -/
def dropSlash : List UInt8 → List UInt8
  | b :: rest => if b = slash then rest else b :: rest
  | [] => []

/-- A path without a leading `./`, if it has one. -/
def dropDotSlash : List UInt8 → List UInt8
  | b :: c :: rest => if b = dot && c = slash then rest else b :: c :: rest
  | path => path

/-- A path without its root: first `./` goes, then the slash of the root and the slash
    that may follow it. -/
def unroot (path : List UInt8) : List UInt8 :=
  let path := dropDotSlash path
  if path.head? = some slash then dropSlash (dropSlash path) else path

/-- The path below the root, unless it is rooted even without its root. -/
def relative? (path : List UInt8) : Option (List UInt8) :=
  let path := unroot path
  if path.head? = some slash then none else some path

/-- Is a piece between slashes a component? `first` says that it is the first piece. -/
def isComponent (first : Bool) (piece : List UInt8) : Bool :=
  !piece.isEmpty && (first || piece != [dot])

/-- The lengths of the beginnings of a path that end with a component, longest first:
    `start` is where the pieces begin, and `found` what has been found. -/
def headSizesFrom (first : Bool) (start : Nat) (found : List Nat) :
    List (List UInt8) → List Nat
  | [] => found
  | piece :: pieces =>
    let stop := start + piece.length
    headSizesFrom false (stop + 1) (if isComponent first piece then stop :: found else found)
      pieces

/-- The lengths of the beginnings of a path that end with a component, longest first. -/
def headSizes (path : List UInt8) : List Nat :=
  headSizesFrom true 0 [] (Text.pieces slash path)

/-- The lengths of the levels above a path, nearest first. -/
def aboveSizes (path : List UInt8) : List Nat :=
  match headSizes path with
  | [] => []
  | _ :: above => above ++ [0]

end PathSieve.Path

/-
  How deeply a glob nests.

  A rule set whose globs nest too deeply is refused as a whole. What counts is the
  nesting of the expression a glob stands for: one level for a group, one more if it has
  several branches that stand for some text, and one for every sequence of more than
  one part. A wildcard brings levels of its own, and so does a class, one more if it has
  more than one member.

  Nesting is the only ground of refusal here. An engine that compiles the globs of a rule
  set to automata also refuses a set whose automata come out too large, of 10 MB or so.
  How large they come out is not said here, so a rule set is not refused for its size.
-/
import PathSieve.Glob.Basic

namespace PathSieve.Glob

/-- The deepest nesting that is accepted. -/
def maxNesting : Nat := 250

/-- What a token adds to the sequence it stands in: a number of parts, none if it stands
    for no text at all, and the levels below. -/
structure Shape where
  parts : Nat
  levels : Nat
  deriving DecidableEq, Repr

namespace Shape

/-- Nothing. -/
def empty : Shape := ⟨0, 0⟩

/-- One after the other. -/
def append (a b : Shape) : Shape :=
  ⟨a.parts + b.parts, max a.levels b.levels⟩

/-- One beside the other, as a branch: `a` is a sequence, and `b` holds the number of
    branches that stand for some text. -/
def beside (a b : Shape) : Shape :=
  if a.parts = 0 then b
  else ⟨b.parts + 1, max (a.levels + if 1 < a.parts then 1 else 0) b.levels⟩

/-- The group of all branches. -/
def group (branches : Shape) : Shape :=
  if branches.parts = 0 then empty
  else ⟨1, branches.levels + (if 1 < branches.parts then 1 else 0) + 1⟩

end Shape

/-- The number of members that a range of characters adds to a class of bytes: its ends
    byte by byte, where the last byte of the one and the first byte of the other make one
    range of bytes. -/
def memberCount (range : Char × Char) : Nat :=
  if range.1 = range.2 then range.1.utf8Size
  else range.1.utf8Size + range.2.utf8Size - 1

mutual

/-- What a token adds to its sequence. -/
def Token.shape : Token → Shape
  | .literal c => ⟨c.utf8Size, 0⟩
  | .anyByte => ⟨1, 1⟩
  | .star => ⟨1, 2⟩
  | .leading => ⟨1, 4⟩
  | .trailing => ⟨2, 1⟩
  | .between => ⟨1, 4⟩
  | .oneOf _ ranges => ⟨1, if 1 < (ranges.map memberCount).sum then 2 else 1⟩
  | .choice branches => (shapeOfBranches branches).group

/-- What the tokens of a sequence come to. -/
def shapeOf : List Token → Shape
  | [] => .empty
  | t :: ts => t.shape.append (shapeOf ts)

/-- What the branches of a group come to. -/
def shapeOfBranches : List (List Token) → Shape
  | [] => .empty
  | b :: bs => (shapeOf b).beside (shapeOfBranches bs)

end

/-- The levels of a whole glob; the two ends of the path make it a sequence. -/
def nesting (g : Glob) : Nat :=
  (shapeOf g).levels + 1

/-- Is the glob flat enough to be used? -/
def isAcceptable (g : Glob) : Bool :=
  g.nesting ≤ maxNesting

end PathSieve.Glob

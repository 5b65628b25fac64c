/-
  Classes in square brackets.

  After the opening bracket a `!` or `^` negates the class. The first bracket or hyphen
  after that is an ordinary character, and so is a last hyphen; between two characters
  a hyphen makes a range, and one more hyphen after a range moves the end of that range.
  A range that ends below its beginning is an error as soon as it is read. A class may
  stay without its closing bracket, which the caller has to settle.
-/
import PathSieve.Glob.Basic

namespace PathSieve.Glob

/-- What reading a class comes to. -/
inductive ClassReading where
  /-- The class, and the number of characters it took after the opening bracket. -/
  | closed (token : Token) (used : Nat)
  /-- A range that ends below its beginning. -/
  | reversed
  /-- No closing bracket. -/
  | unclosed
  deriving Repr

namespace ClassReading

/-- Let the last range, which is first in the reversed list, end at `c`. -/
def extendLast? (c : Char) : List (Char × Char) → Option (List (Char × Char))
  | [] => none
  | r :: rs => if c < r.1 then none else some ((r.1, c) :: rs)

/-- Read the members of a class: `rev` holds the ranges read so far in reverse, `pending`
    says that a hyphen waits for the end of a range, `first` that nothing has been read. -/
def members (negated : Bool) (rev : List (Char × Char)) (pending first : Bool) (used : Nat) :
    List Char → ClassReading
  | [] => .unclosed
  | c :: cs =>
    if c = ']' && !first then
      .closed (.oneOf negated (if pending then ('-', '-') :: rev else rev).reverse) (used + 1)
    else if c = '-' && !first && !pending then
      members negated rev true false (used + 1) cs
    else if pending then
      match extendLast? c rev with
      | some rev => members negated rev false false (used + 1) cs
      | none => .reversed
    else members negated ((c, c) :: rev) false false (used + 1) cs

/-- Read a class whose opening bracket has been read. -/
def ofChars : List Char → ClassReading
  | '!' :: cs => members true [] false true 1 cs
  | '^' :: cs => members true [] false true 1 cs
  | cs => members false [] false true 0 cs

end ClassReading

/-- The bytes that a range of characters adds to a class: for one character its own
    bytes; else all bytes of the lower end but the last, all bytes of the upper end but
    the first, and whatever lies between the two left out. -/
def rangeHas (lo hi : Char) (b : UInt8) : Bool :=
  let low := String.utf8EncodeChar lo
  let high := String.utf8EncodeChar hi
  if lo = hi then low.contains b
  else low.dropLast.contains b || high.tail.contains b
    || (low.getLastD 0 ≤ b && b ≤ high.headD 0)

/-- Does a byte belong to a class? -/
def classHas (negated : Bool) (ranges : List (Char × Char)) (b : UInt8) : Bool :=
  (ranges.any fun r => rangeHas r.1 r.2 b) != negated

end PathSieve.Glob

/-
  Matching a glob against a path.

  A path of `n` bytes has the places 0 to `n`, before, between and after its bytes.
  Reading a glob from left to right, an ascending list holds the places up to which the
  tokens so far can account for the path. At first that is place 0 alone; each token
  moves the places; what is left at last are the ends of the beginnings of the path that
  the glob matches. So one run over a path answers for the path and for all that is
  above it. Places that are reached in several ways are kept once, so nothing is tried
  twice, however the wildcards of the glob interact.
-/
import PathSieve.Glob.Class

namespace PathSieve.Glob

/-- Places of a path, in ascending order. -/
abbrev Places := List Nat

namespace Places

/-- The places of both lists, after those in `rev`, which are in reverse. -/
def unionFrom (rev : Places) : Places → Places → Places
  | [], bs => rev.reverse ++ bs
  | as, [] => rev.reverse ++ as
  | a :: as, b :: bs =>
    if a < b then unionFrom (a :: rev) as (b :: bs)
    else if b < a then unionFrom (b :: rev) (a :: as) bs
    else unionFrom (a :: rev) as bs
termination_by as bs => as.length + bs.length

/-- The places of both lists. -/
def union (as bs : Places) : Places :=
  unionFrom [] as bs

/-- Move every place over one byte that passes the test; others are lost. -/
def advance (p : UInt8 → Bool) (path : Array UInt8) (places : Places) : Places :=
  places.filterMap fun i =>
    match path[i]? with
    | some b => if p b then some (i + 1) else none
    | none => none

/-- The last place that can be reached from `i` over bytes that pass the test. -/
def furthest (p : UInt8 → Bool) (path : Array UInt8) (i : Nat) : Nat :=
  if h : i < path.size then
    if p path[i] then furthest p path (i + 1) else i
  else i
termination_by path.size - i

/-- Add all places that can be reached from `i` over bytes that pass the test. The state
    holds the places found, in reverse, and the first place that is not settled by them. -/
def spreadOne (p : UInt8 → Bool) (path : Array UInt8) (s : Places × Nat) (i : Nat) :
    Places × Nat :=
  if i < s.2 then s
  else
    let stop := furthest p path i
    ((List.range' i (stop - i + 1)).reverseAux s.1, stop + 1)

/-- Let every place move over any number of bytes that pass the test. -/
def spread (p : UInt8 → Bool) (path : Array UInt8) (places : Places) : Places :=
  (places.foldl (spreadOne p path) ([], 0)).1.reverse

/-- Move every place over one slash. -/
def overSlash (path : Array UInt8) (places : Places) : Places :=
  places.advance (· == slash) path

/-- Let every place move over anything. -/
def overAll (path : Array UInt8) (places : Places) : Places :=
  places.spread (fun _ => true) path

end Places

mutual

/-- Move places over the bytes that a token accounts for. -/
def Token.advance (path : Array UInt8) (places : Places) : Token → Places
  | .literal c =>
    (String.utf8EncodeChar c).foldl (fun ps x => Places.advance (· == x) path ps) places
  | .anyByte => places.advance (· != slash) path
  | .star => places.spread (· != slash) path
  | .leading =>
    (places.union (places.overSlash path)).union ((places.overAll path).overSlash path)
  | .trailing => (places.overSlash path).overAll path
  | .between =>
    (places.overSlash path).union (((places.overSlash path).overAll path).overSlash path)
  | .oneOf negated ranges => places.advance (classHas negated ranges) path
  | .choice branches =>
    if allVoid branches then places else advanceAny path places branches

/-- Move places over the bytes that a sequence of tokens accounts for. -/
def advanceAll (path : Array UInt8) (places : Places) : List Token → Places
  | [] => places
  | t :: ts => advanceAll path (t.advance path places) ts

/-- Move places over the bytes that one of the branches accounts for; branches that stand
    for no text do not take part. -/
def advanceAny (path : Array UInt8) (places : Places) : List (List Token) → Places
  | [] => []
  | b :: bs =>
    if isVoid b then advanceAny path places bs
    else (advanceAll path places b).union (advanceAny path places bs)

end

/-- The lengths of the beginnings of a path that the tokens account for. A single leading
    token accounts for all of them. -/
def reach (g : Glob) (path : Array UInt8) : Places :=
  match g with
  | [.leading] => List.range (path.size + 1)
  | g => advanceAll path [0] g

/-- Is the last component of the first `n` bytes of a path exactly two full stops? -/
def endsInDotDot (path : Array UInt8) (n : Nat) : Bool :=
  2 ≤ n && path[n - 1]? == some dot && path[n - 2]? == some dot
    && (n = 2 || path[n - 3]? == some slash)

/-- The character of a literal token. -/
def Token.literal? : Token → Option Char
  | .literal c => some c
  | _ => none

/-- Does the glob consist of literals, perhaps after a leading token? -/
def isPlain : Glob → Bool
  | .leading :: ts => ts.all fun t => t.literal?.isSome
  | ts => ts.all fun t => t.literal?.isSome

/-- Does the glob name one whole component at any depth? -/
def isBaseName : Glob → Bool
  | .leading :: t :: ts =>
    (t :: ts).all fun t =>
      match t.literal? with
      | some c => c != '/'
      | none => false
  | _ => false

/-- Do the literals at the end of the glob hold a full stop with no slash after it? -/
def endsInExtension (g : Glob) : Bool :=
  let tail := g.reverse.map Token.literal?
  (tail.takeWhile fun c => c.isSome && c != some '/').contains (some '.')

/-- Does the glob ask for the base name or the extension of a path? A path whose last
    component is two full stops has neither. -/
def asksForName (g : Glob) : Bool :=
  g.isBaseName || (!g.isPlain && g.endsInExtension)

/-- The lengths of the beginnings of a path that the glob matches. -/
def endings (g : Glob) (path : Array UInt8) : Places :=
  if g.asksForName then (g.reach path).filter fun n => !endsInDotDot path n
  else g.reach path

end PathSieve.Glob

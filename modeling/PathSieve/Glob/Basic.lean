/-
  Globs: patterns for whole paths.

  A glob is a list of tokens, each of which accounts for a stretch of the path. All
  stretches are of bytes: a wildcard matches one byte of a character that has several,
  and a class is a set of bytes.
-/

namespace PathSieve

namespace Glob

/-- One part of a glob. -/
inductive Token where
  /-- One character, as its UTF-8 bytes. -/
  | literal (c : Char)
  /-- Any one byte but the slash. -/
  | anyByte
  /-- Any stretch without a slash. -/
  | star
  /-- `**/` at the beginning: nothing, or all up to and with some slash. -/
  | leading
  /-- `/**` at the end: a slash and anything after it. -/
  | trailing
  /-- `/**/` inside: one slash, or two with anything between them. -/
  | between
  /-- One byte out of a set given by ranges of characters, or one byte outside it. -/
  | oneOf (negated : Bool) (ranges : List (Char × Char))
  /-- One of several globs; branches that stand for no text at all do not take part. -/
  | choice (branches : List (List Token))
  deriving Repr, Inhabited

end Glob

/-- A glob, matched against a whole path. -/
abbrev Glob := List Glob.Token

namespace Glob

/-- The byte of the slash. -/
def slash : UInt8 := 47

/-- The byte of the full stop. -/
def dot : UInt8 := 46

mutual

/-- Does the token stand for no text at all? Only a choice between such branches does. -/
def Token.isVoid : Token → Bool
  | .choice branches => allVoid branches
  | _ => false

/-- Do all tokens stand for no text at all? -/
def isVoid : List Token → Bool
  | [] => true
  | t :: ts => t.isVoid && isVoid ts

/-- Do all branches stand for no text at all? -/
def allVoid : List (List Token) → Bool
  | [] => true
  | b :: bs => isVoid b && allVoid bs

end

end Glob

end PathSieve

/-
  Reading a glob.

  The reader goes through the characters one by one. A step looks at the character, at
  the one before it and at what follows, and says how many more characters it has used
  up; the run skips those. So the run is a recursion on the text itself.

  Braces open groups of branches, which may nest; a comma separates branches inside a
  group and is an ordinary character outside. Two stars in a row stand for any number
  of components only where a component could begin and end; elsewhere they are two
  plain stars.
-/
import PathSieve.Glob.Class

namespace PathSieve.Glob

/-- A group that is being read: the tokens before it in the branch around it, last
    first, and its finished branches, last first. -/
structure Group where
  outer : List Token
  done : List (List Token)

/-- How far a glob has been read. -/
structure Reader where
  /-- The open groups, innermost first. -/
  groups : List Group := []
  /-- The tokens of the branch being read, last first. -/
  branch : List Token := []
  /-- May a bracket still open a class? -/
  classes : Bool := true

namespace Reader

/-- Add a token to the branch being read. -/
def push (r : Reader) (t : Token) : Reader :=
  { r with branch := t :: r.branch }

/-- Is a group open? -/
def inGroup (r : Reader) : Bool :=
  !r.groups.isEmpty

/-- Put a token in the place of the last one, unless that one already stands for any
    number of components on its own. -/
def replaceLast (r : Reader) (t : Token) : Reader :=
  match r.branch with
  | .leading :: _ => r
  | .trailing :: _ => r
  | _ :: ts => { r with branch := t :: ts }
  | [] => r

/-- Two plain stars. -/
def pushTwoStars (r : Reader) : Reader :=
  (r.push .star).push .star

/-- Read two stars: `before` is the character in front of them, `after` what follows. -/
def doubleStar (r : Reader) (before : Option Char) (after : List Char) : Reader × Nat :=
  if r.branch.isEmpty then
    match after with
    | [] => (r.push .leading, 1)
    | c :: _ => if c = '/' then (r.push .leading, 2) else (r.pushTwoStars, 1)
  else if before = some '/' || (r.inGroup && (before = some ',' || before = some '\x7b')) then
    match after with
    | [] => (r.replaceLast .trailing, 1)
    | c :: _ =>
      if c = '/' then (r.replaceLast .between, 2)
      else if r.inGroup && (c = ',' || c = '\x7d') then (r.replaceLast .trailing, 1)
      else (r.pushTwoStars, 1)
  else (r.pushTwoStars, 1)

/-- Close the innermost group, if one is open. -/
def closeGroup? (r : Reader) : Option Reader :=
  match r.groups with
  | [] => none
  | g :: gs =>
    some { r with
      groups := gs
      branch := .choice (r.branch.reverse :: g.done).reverse :: g.outer }

/-- Begin the next branch of the innermost group; outside of groups a comma is plain. -/
def comma (r : Reader) : Reader :=
  match r.groups with
  | [] => r.push (.literal ',')
  | g :: gs =>
    { r with groups := { g with done := r.branch.reverse :: g.done } :: gs, branch := [] }

/-- Open a group. -/
def openGroup (r : Reader) : Reader :=
  { r with groups := ⟨r.branch, []⟩ :: r.groups, branch := [] }

/-- Read one character: the reader after it, and how many more characters it used. -/
def step? (r : Reader) (before : Option Char) (c : Char) (rest : List Char) :
    Option (Reader × Nat) :=
  match c with
  | '?' => some (r.push .anyByte, 0)
  | '*' =>
    match rest with
    | '*' :: after => some (r.doubleStar before after)
    | _ => some (r.push .star, 0)
  | '[' =>
    if r.classes then
      match ClassReading.ofChars rest with
      | .closed t used => some (r.push t, used)
      | .reversed => none
      | .unclosed => some ({ r.push (.literal '[') with classes := false }, 0)
    else some (r.push (.literal '['), 0)
  | '\x7b' => some (r.openGroup, 0)
  | '\x7d' => r.closeGroup?.map fun r => (r, 0)
  | ',' => some (r.comma, 0)
  | '\\' =>
    match rest with
    | [] => none
    | c :: _ => some (r.push (.literal c), 1)
  | c => some (r.push (.literal c), 0)

/-- Read a text, leaving out its first `skip` characters. -/
def run (r : Reader) (skip : Nat) (before : Option Char) : List Char → Option Reader
  | [] => some r
  | c :: cs =>
    match skip with
    | skip + 1 => run r skip (some c) cs
    | 0 =>
      match r.step? before c cs with
      | some (r, used) => run r used (some c) cs
      | none => none

/-- The glob that has been read, unless a group is still open. -/
def finish? (r : Reader) : Option Glob :=
  if r.inGroup then none else some r.branch.reverse

end Reader

/-- The glob that a text writes down, if it does. -/
def parse? (text : List Char) : Option Glob :=
  (Reader.run {} 0 none text).bind Reader.finish?

end PathSieve.Glob

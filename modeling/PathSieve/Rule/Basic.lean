/-
  Rules and how a line writes one.

  A line is a rule unless it is a comment, blank, or not a glob. A leading `!` turns the
  rule around; a leading `/` ties it to the root; a trailing `/` confines it to
  directories. A rule that is not tied and holds no slash applies at any depth.
-/
import PathSieve.Glob.Reader
import PathSieve.Text.Blank

namespace PathSieve

/-- A rule: the paths it is about, and what it says of them. -/
structure Rule where
  /-- Does the rule let the paths through that it matches? -/
  whitelist : Bool
  /-- Is the rule about directories only? -/
  dirOnly : Bool
  glob : Glob

namespace Rule

/-- The characters without the last one, if the last one is `c`. -/
def dropLast? (c : Char) (cs : List Char) : Option (List Char) :=
  if cs.getLast? = some c then some cs.dropLast else none

/-- The characters without the first one, if the first one is `c`. -/
def dropFirst? (c : Char) : List Char → Option (List Char)
  | [] => none
  | d :: cs => if d = c then some cs else none

/-- A line without the blanks at its end; a last blank that is escaped keeps all. -/
def trimLine (line : List Char) : List Char :=
  if ['\\', ' '].isSuffixOf line then line else Text.trimEnd line

/-- What the beginning of a line says. -/
structure Marks where
  whitelist : Bool
  anchored : Bool
  body : List Char

/-- Read the marks at the beginning of a line: `!` and `/`, each at most once. A
    backslash takes their meaning from `!` and `#`. -/
def Marks.ofLine (line : List Char) : Marks :=
  match line with
  | '\\' :: '!' :: body => ⟨false, false, '!' :: body⟩
  | '\\' :: '#' :: body => ⟨false, false, '#' :: body⟩
  | line =>
    let (whitelist, line) := match dropFirst? '!' line with
      | some rest => (true, rest)
      | none => (false, line)
    match dropFirst? '/' line with
    | some body => ⟨whitelist, true, body⟩
    | none => ⟨whitelist, false, line⟩

/-- Take the mark for directories off the end: a slash, and a backslash before it. -/
def splitDirMark (body : List Char) : Bool × List Char :=
  match dropLast? '/' body with
  | none => (false, body)
  | some body => (true, (dropLast? '\\' body).getD body)

/-- Let a body that is not tied and holds no slash apply at any depth. -/
def deepen (anchored : Bool) (body : List Char) : List Char :=
  if anchored || body.contains '/' || body == ['*', '*'] then body
  else '*' :: '*' :: '/' :: body

/-- Let a body for all that is in a directory leave out the directory itself. -/
def insideOnly (body : List Char) : List Char :=
  if ['/', '*', '*'].isSuffixOf body then body ++ ['/', '*'] else body

/-- The rule that a line writes down, if it does. -/
def ofLine? (line : List Char) : Option Rule :=
  if line.head? = some '#' then none
  else
    let line := trimLine line
    if line.isEmpty then none
    else
      let marks := Marks.ofLine line
      let (dirOnly, body) := splitDirMark marks.body
      (Glob.parse? (insideOnly (deepen marks.anchored body))).map fun glob =>
        ⟨marks.whitelist, dirOnly, glob⟩

end Rule

end PathSieve

/-
  Rule sets, and what they say of a path.

  A rule set is the list of rules that the lines of a text write down, in their order. A
  path is asked about level by level: first the path itself, as a file or a directory,
  then each level above it, as a directory. At a level the last rule that matches
  decides, and the nearest level at which a rule matches decides at all.

  A text is refused for the nesting of its globs only, and never for the size of what they
  would be compiled to (see `PathSieve.Glob.Nesting`).
-/
import PathSieve.Glob.Match
import PathSieve.Glob.Nesting
import PathSieve.Rule.Basic
import PathSieve.Rule.Path
import PathSieve.Rule.Verdict
import PathSieve.Text.Utf8

namespace PathSieve

/-- Rules in the order of their lines. -/
structure RuleSet where
  rules : List Rule

namespace RuleSet

/-- The byte that ends a line. -/
def newline : UInt8 := 10

/-- The rule that a line of bytes writes down, if it does. -/
def ruleOfLine? (line : List UInt8) : Option Rule :=
  (Text.Utf8.decode? line).bind fun text => Rule.ofLine? text.toList

/-- The rules that the lines of a text write down, in order. -/
def rulesOf (text : List UInt8) : List Rule :=
  (Text.pieces newline text).filterMap ruleOfLine?

/-- The rule set that a text writes down, unless one of its globs nests too deeply. There is
    no limit on its size. -/
def ofText? (text : List UInt8) : Option RuleSet :=
  let rules := rulesOf text
  if rules.all fun r => r.glob.isAcceptable then some ⟨rules⟩ else none

/-- How many rules ignore what they match. -/
def ignoreCount (rs : RuleSet) : Nat :=
  rs.rules.countP fun r => !r.whitelist

/-- How many rules let through what they match. -/
def whitelistCount (rs : RuleSet) : Nat :=
  rs.rules.countP fun r => r.whitelist

/-- Are there no rules? -/
def isEmpty (rs : RuleSet) : Bool :=
  rs.rules.isEmpty

/-- A level of a path: how much of it, and whether that is a directory. -/
structure Level where
  size : Nat
  isDir : Bool
  deriving DecidableEq, Repr

/-- The levels of a path below the root, nearest first: the path, and what is above it. -/
def levels (path : List UInt8) (isDir : Bool) : List Level :=
  ⟨path.length, isDir⟩ :: (Path.aboveSizes path).map fun size => ⟨size, true⟩

/-- Does a rule whose glob matches the beginnings of the given lengths apply at a level?
    Rules about directories are passed over for a file. -/
def appliesAt (level : Level) (r : Rule × Glob.Places) : Bool :=
  (level.isDir || !r.1.dirOnly) && r.2.contains level.size

/-- The rule that decides about a path at one of its levels: the last one that applies. -/
def ruling? (rs : RuleSet) (path : Array UInt8) (level : Level) : Option Rule :=
  rs.rules.reverse.find? fun r => appliesAt level (r, r.glob.endings path)

/-- What the rule that decides says. -/
def verdictOf : Option Rule → Verdict
  | none => .unmatched
  | some r => if r.whitelist then .whitelisted else .ignored

/-- What a rule set says of a path below the root. Each glob is run over the path once. -/
def verdict (rs : RuleSet) (path : List UInt8) (isDir : Bool) : Verdict :=
  let reached := rs.rules.reverse.map fun r => (r, r.glob.endings path.toArray)
  verdictOf ((levels path isDir).findSome? fun level =>
    (reached.find? (appliesAt level)).map Prod.fst)

theorem verdict_eq (rs : RuleSet) (path : List UInt8) (isDir : Bool) :
    rs.verdict path isDir =
      verdictOf ((levels path isDir).findSome? (rs.ruling? path.toArray)) := by
  have h : rs.ruling? path.toArray = fun level =>
      ((rs.rules.reverse.map fun r => (r, r.glob.endings path.toArray)).find?
        (appliesAt level)).map Prod.fst := by
    funext level
    rw [List.find?_map, Option.map_map]
    simp [ruling?, Function.comp_def]
  rw [h]
  rfl

/-- What a rule set says of a path. There is no answer when the path is not below the
    root, except from a set without rules, which does not look at the path. -/
def verdict? (rs : RuleSet) (path : List UInt8) (isDir : Bool) : Option Verdict :=
  if rs.isEmpty then some .unmatched
  else (Path.relative? path).map fun path => rs.verdict path isDir

/-- A line of a path list as a path, and whether its trailing slash marks a directory. -/
def pathOfLine (line : String) : List UInt8 × Bool :=
  let path := Text.Utf8.encode line
  if path.getLast? = some Glob.slash then (path.dropLast, true) else (path, false)

/-- Is a line of a path list kept? -/
def keeps? (rs : RuleSet) (line : String) : Option Bool :=
  let (path, isDir) := pathOfLine line
  (rs.verdict? path isDir).map fun v => v != .ignored

/-- The lines of a path list that are kept: those that are not empty and not ignored. There
    is no answer when one of them has none. -/
def keptLines? (rs : RuleSet) (text : String) : Option (List String) :=
  let judged := ((Text.lines text).filter fun line => !line.isEmpty).map fun line =>
    (line, rs.keeps? line)
  if judged.all fun j => j.2.isSome then
    some ((judged.filter fun j => j.2 == some true).map Prod.fst)
  else none

end RuleSet

end PathSieve

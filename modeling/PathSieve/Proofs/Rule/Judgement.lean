/-
  What a rule set says, by its meaning.

  A rule matches at a level when its glob matches the path of that level, and the level is
  a directory if the rule is about directories only. The deciding level is the nearest at
  which some rule matches, and there the last rule that matches has its way (`Judges`).

  The rule set runs each glob once, over the whole path, and looks up the level among the
  places that have been reached. This comes to the same (`verdict_eq_iff`), because the
  levels of a path are beginnings of it and one run answers for all beginnings.
-/
import PathSieve.Proofs.Glob.Denotation
import PathSieve.Proofs.Rule.Levels
import PathSieve.Rule.Set

namespace PathSieve

/-- A level at which rules are asked: a path, and whether it is a directory. -/
structure Rung where
  path : List UInt8
  isDir : Bool

/-- The levels of a path, nearest first: the path itself, and what is above it, as
    directories. -/
inductive Ladder (path : List UInt8) (isDir : Bool) : List Rung → Prop where
  | mk {above : List (List UInt8)} (h : Path.Climb path above) :
      Ladder path isDir (⟨path, isDir⟩ :: above.map fun path => ⟨path, true⟩)

theorem Ladder.unique {path : List UInt8} {isDir : Bool} {rungs rungs' : List Rung}
    (h : Ladder path isDir rungs) (h' : Ladder path isDir rungs') : rungs = rungs' := by
  obtain ⟨hclimb⟩ := h
  obtain ⟨hclimb'⟩ := h'
  rw [hclimb.unique hclimb']

namespace Rule

/-- Does a rule match at a level? -/
def MatchesAt (r : Rule) (rung : Rung) : Prop :=
  (r.dirOnly = true → rung.isDir = true) ∧ r.glob.Matches rung.path

/-- What a rule says of the paths that it decides about. -/
def verdict (r : Rule) : Verdict :=
  if r.whitelist then .whitelisted else .ignored

theorem verdict_ne_unmatched (r : Rule) : r.verdict ≠ .unmatched := by
  unfold verdict
  split <;> decide

end Rule

/-- The last of some rules that match at a level. -/
inductive LastMatch (rung : Rung) : List Rule → Rule → Prop where
  | mk {earlier later : List Rule} {r : Rule} (hr : r.MatchesAt rung)
      (hlater : ∀ r' ∈ later, ¬ r'.MatchesAt rung) : LastMatch rung (earlier ++ r :: later) r

namespace RuleSet

variable {rs : RuleSet} {path : List UInt8} {isDir : Bool} {rungs : List Rung} {v : Verdict}

/-- Does some rule match at a level? -/
def MatchesAt (rs : RuleSet) (rung : Rung) : Prop :=
  ∃ r ∈ rs.rules, r.MatchesAt rung

/-- The nearest level at which some rule matches, by its number. -/
structure DecidesAt (rs : RuleSet) (rungs : List Rung) (n : Nat) : Prop where
  here : ∃ rung, rungs[n]? = some rung ∧ rs.MatchesAt rung
  nearest : ∀ k < n, ∀ rung, rungs[k]? = some rung → ¬ rs.MatchesAt rung

/-- What a rule set says of a path with these levels. -/
inductive Judges (rs : RuleSet) (rungs : List Rung) : Verdict → Prop where
  | unmatched (h : ∀ rung ∈ rungs, ¬ rs.MatchesAt rung) : Judges rs rungs .unmatched
  | decided {n : Nat} {rung : Rung} {r : Rule} (hn : rs.DecidesAt rungs n)
      (hrung : rungs[n]? = some rung) (hr : LastMatch rung rs.rules r) : Judges rs rungs r.verdict

/-! ## Levels by their lengths -/

/-- The level of a path that is given by a length. -/
def rungOf (path : List UInt8) (level : Level) : Rung :=
  ⟨path.take level.size, level.isDir⟩

theorem ladder_levels (path : List UInt8) (isDir : Bool) :
    Ladder path isDir ((levels path isDir).map (rungOf path)) := by
  have h : Ladder path isDir _ := .mk (Path.climb_aboveSizes path)
  simpa [levels, rungOf, Function.comp_def] using h

theorem size_le_of_mem_levels {level : Level} (h : level ∈ levels path isDir) :
    level.size ≤ path.length := by
  rcases List.mem_cons.mp h with rfl | h
  · exact Nat.le_refl _
  · obtain ⟨size, hsize, rfl⟩ := List.mem_map.mp h
    exact Path.le_length_of_mem_aboveSizes hsize

theorem appliesAt_iff {level : Level} (hle : level.size ≤ path.length) (r : Rule) :
    appliesAt level (r, r.glob.endings path.toArray) = true ↔ r.MatchesAt (rungOf path level) := by
  have hends : level.size ∈ r.glob.endings path.toArray ↔ _ := Glob.mem_endings_iff
  rw [List.size_toArray, and_iff_right hle] at hends
  unfold appliesAt Rule.MatchesAt rungOf
  rw [Bool.and_eq_true, List.contains_iff_mem, hends]
  refine and_congr_left fun _ => ?_
  cases level.isDir <;> cases r.dirOnly <;> simp

theorem ruling?_eq_some_iff {level : Level} (hle : level.size ≤ path.length) {r : Rule} :
    rs.ruling? path.toArray level = some r ↔ LastMatch (rungOf path level) rs.rules r := by
  unfold ruling?
  rw [List.find?_eq_some_iff_append, appliesAt_iff hle]
  constructor
  · rintro ⟨hr, later, earlier, hsplit, hlater⟩
    rw [List.reverse_eq_iff.mp hsplit, List.reverse_append, List.reverse_cons, List.append_assoc]
    refine .mk hr fun r' hr' => ?_
    have hnot := hlater r' (List.mem_reverse.mp hr')
    rw [Bool.not_eq_true'] at hnot
    rw [← appliesAt_iff hle, hnot]
    exact Bool.false_ne_true
  · intro h
    generalize rs.rules = rules at h
    obtain ⟨hr, hlater⟩ := h
    rename_i earlier later
    refine ⟨hr, later.reverse, earlier.reverse, by simp, fun r' hr' => ?_⟩
    rw [Bool.not_eq_true', Bool.eq_false_iff, ne_eq, appliesAt_iff hle]
    exact hlater r' (List.mem_reverse.mp hr')

theorem ruling?_eq_none_iff {level : Level} (hle : level.size ≤ path.length) :
    rs.ruling? path.toArray level = none ↔ ¬ rs.MatchesAt (rungOf path level) := by
  unfold ruling? MatchesAt
  rw [List.find?_eq_none]
  simp only [List.mem_reverse, appliesAt_iff hle, not_exists, not_and]

/-! ## Verdicts -/

theorem matchesAt_of_lastMatch {rung : Rung} {r : Rule} (h : LastMatch rung rs.rules r) :
    rs.MatchesAt rung := by
  unfold MatchesAt
  generalize rs.rules = rules at h
  obtain ⟨hr, -⟩ := h
  exact ⟨r, by simp, hr⟩

theorem findSome?_ruling?_eq_none_iff :
    (levels path isDir).findSome? (rs.ruling? path.toArray) = none ↔
      ∀ rung ∈ (levels path isDir).map (rungOf path), ¬ rs.MatchesAt rung := by
  rw [List.findSome?_eq_none_iff, List.forall_mem_map]
  exact forall₂_congr fun level hlevel => ruling?_eq_none_iff (size_le_of_mem_levels hlevel)

/-- A rule that is found is the last one that matches at the deciding level. -/
theorem decidesAt_of_findSome? {r : Rule}
    (h : (levels path isDir).findSome? (rs.ruling? path.toArray) = some r) :
    ∃ n rung, rs.DecidesAt ((levels path isDir).map (rungOf path)) n ∧
      ((levels path isDir).map (rungOf path))[n]? = some rung ∧ LastMatch rung rs.rules r := by
  obtain ⟨nearer, level, farther, hsplit, hruling, hnone⟩ := List.findSome?_eq_some_iff.mp h
  have hle : ∀ near ∈ nearer ++ level :: farther, near.size ≤ path.length := by
    rw [← hsplit]
    exact fun near hnear => size_le_of_mem_levels hnear
  have hlast := (ruling?_eq_some_iff (hle level (by simp))).mp hruling
  have hget : ((levels path isDir).map (rungOf path))[nearer.length]? =
      some (rungOf path level) := by
    simp [hsplit]
  refine ⟨nearer.length, _, ⟨⟨_, hget, matchesAt_of_lastMatch hlast⟩, ?_⟩, hget, hlast⟩
  intro k hk rung hrung
  rw [hsplit, List.map_append, List.getElem?_append_left (by simpa using hk)] at hrung
  obtain ⟨near, hnear, rfl⟩ := List.mem_map.mp (List.mem_of_getElem? hrung)
  exact (ruling?_eq_none_iff (hle near (List.mem_append_left _ hnear))).mp (hnone near hnear)

/-- The last rule that matches at the deciding level is found. -/
theorem findSome?_of_decidesAt {n : Nat} {rung : Rung} {r : Rule}
    (hn : rs.DecidesAt ((levels path isDir).map (rungOf path)) n)
    (hrung : ((levels path isDir).map (rungOf path))[n]? = some rung)
    (hr : LastMatch rung rs.rules r) :
    (levels path isDir).findSome? (rs.ruling? path.toArray) = some r := by
  rw [List.getElem?_map, Option.map_eq_some_iff] at hrung
  obtain ⟨level, hlevel, rfl⟩ := hrung
  have hle := size_le_of_mem_levels (List.mem_of_getElem? hlevel)
  obtain ⟨hlt, rfl⟩ := List.getElem?_eq_some_iff.mp hlevel
  rw [List.findSome?_eq_some_iff]
  refine ⟨(levels path isDir).take n, _, (levels path isDir).drop (n + 1), ?_,
    (ruling?_eq_some_iff hle).mpr hr, fun near hnear => ?_⟩
  · rw [← List.drop_eq_getElem_cons hlt, List.take_append_drop]
  · obtain ⟨k, hk, rfl⟩ := List.mem_take_iff_getElem.mp hnear
    have hmem : (levels path isDir)[k] ∈ levels path isDir := List.getElem_mem _
    rw [ruling?_eq_none_iff (size_le_of_mem_levels hmem)]
    refine hn.nearest k (by omega) _ ?_
    rw [List.getElem?_map, List.getElem?_eq_getElem (by omega)]
    rfl

/-- A rule set says of a path what its levels and the rules that match there call for. -/
theorem verdict_eq_iff (h : Ladder path isDir rungs) :
    rs.verdict path isDir = v ↔ Judges rs rungs v := by
  obtain rfl := h.unique (ladder_levels path isDir)
  rw [verdict_eq]
  cases hfind : (levels path isDir).findSome? (rs.ruling? path.toArray) with
  | none =>
    have hnone := findSome?_ruling?_eq_none_iff.mp hfind
    constructor
    · rintro rfl
      exact .unmatched hnone
    · rintro (_ | ⟨⟨⟨rung, hrung, hmatch⟩, -⟩, -, -⟩)
      · rfl
      · exact absurd hmatch (hnone rung (List.mem_of_getElem? hrung))
  | some r =>
    obtain ⟨n, rung, hn, hrung, hr⟩ := decidesAt_of_findSome? hfind
    constructor
    · rintro rfl
      exact .decided hn hrung hr
    · rintro (hnone | ⟨hn', hrung', hr'⟩)
      · exact absurd (matchesAt_of_lastMatch hr) (hnone rung (List.mem_of_getElem? hrung))
      · have hfind' := findSome?_of_decidesAt hn' hrung' hr'
        rw [hfind, Option.some.injEq] at hfind'
        rw [hfind']
        rfl

/-- When there is an answer, and which: a set without rules does not look at the path, and
    any other needs one below the root. -/
theorem verdict?_eq_some_iff {p : List UInt8} :
    rs.verdict? p isDir = some v ↔ rs.rules = [] ∧ v = .unmatched ∨ rs.rules ≠ [] ∧
      ∃ path rungs, Path.relative? p = some path ∧ Ladder path isDir rungs ∧
        Judges rs rungs v := by
  unfold verdict? isEmpty
  by_cases hrules : rs.rules = []
  · simp [hrules, eq_comm]
  · rw [if_neg (by simpa using hrules), Option.map_eq_some_iff]
    simp only [hrules, false_and, false_or, ne_eq, not_false_eq_true, true_and]
    refine exists_congr fun path => ?_
    constructor
    · rintro ⟨hpath, hv⟩
      exact ⟨_, hpath, ladder_levels path isDir, (verdict_eq_iff (ladder_levels path isDir)).mp hv⟩
    · rintro ⟨rungs, hpath, hladder, hv⟩
      exact ⟨hpath, (verdict_eq_iff hladder).mpr hv⟩

end RuleSet

end PathSieve

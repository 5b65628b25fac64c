/-
  Rule texts, line by line.

  Each line of a rule text writes down one rule or none, whatever stands in the lines
  around it. Four kinds of lines are inert and write none: bytes that are no text, comments,
  lines of nothing but white space, and lines from which no glob can be read. Every other
  line writes one (`ruleOfLine?_eq_none_iff`). So a text builds if and only if each of its
  lines does, and then its rules are those of its lines, one line after the other
  (`ofText?_eq_some_iff`). To put inert lines in or to take them out changes nothing
  (`Reworks.ofText?_eq`).
-/
import PathSieve.Proofs.Text.Cuts
import PathSieve.Proofs.Text.Stripping
import PathSieve.Rule.Set

namespace PathSieve

namespace Rule

/-- What the glob of a line is read from. -/
def globText (line : List Char) : List Char :=
  let marks := Marks.ofLine (trimLine line)
  insideOnly (deepen marks.anchored (splitDirMark marks.body).2)

theorem trimLine_eq_nil_iff {line : List Char} :
    trimLine line = [] ↔ ∀ c ∈ line, Text.isBlank c = true := by
  unfold trimLine
  split
  · next hescape =>
    -- a line that ends with an escaped blank has a backslash in it
    have hmem : '\\' ∈ line := (List.isSuffixOf_iff_suffix.mp hescape).subset (by simp)
    constructor
    · intro heq
      rw [heq] at hmem
      cases hmem
    · intro hblank
      exact absurd (hblank _ hmem) (by decide)
  · exact Text.trimEnd_eq_nil_iff

theorem ofLine?_eq_none_iff {line : List Char} :
    ofLine? line = none ↔ line.head? = some '#' ∨ (∀ c ∈ line, Text.isBlank c = true) ∨
      Glob.parse? (globText line) = none := by
  rw [← trimLine_eq_nil_iff]
  unfold ofLine?
  by_cases hcomment : line.head? = some '#'
  · simp [hcomment]
  by_cases hempty : trimLine line = []
  · simp [hempty]
  · simp [hcomment, hempty, globText]

end Rule

namespace RuleSet

open Text.Utf8 (encode)

variable {line text text' : List UInt8} {ls ls' : List (List UInt8)} {rs : RuleSet}

/-! ## Inert lines -/

/-- Lines that write down no rule. -/
inductive Inert : List UInt8 → Prop where
  | notUtf8 {line : List UInt8} (h : ∀ text, line ≠ encode text) : Inert line
  | comment (text : List Char) : Inert (encode (String.ofList ('#' :: text)))
  | blank {text : List Char} (h : ∀ c ∈ text, Text.isBlank c = true) :
      Inert (encode (String.ofList text))
  | notGlob {text : List Char} (h : Glob.parse? (Rule.globText text) = none) :
      Inert (encode (String.ofList text))

theorem inert_nil : Inert [] :=
  .blank (List.forall_mem_nil _)

theorem ruleOfLine?_encode (text : List Char) :
    ruleOfLine? (encode (String.ofList text)) = Rule.ofLine? text := by
  simp [ruleOfLine?, Text.Utf8.decode?_encode]

theorem Inert.ruleOfLine?_eq (h : Inert line) : ruleOfLine? line = none := by
  cases h with
  | notUtf8 h =>
    have hnone : Text.Utf8.decode? line = none :=
      Option.eq_none_iff_forall_ne_some.mpr fun text heq =>
        h text (Text.Utf8.decode?_eq_some_iff.mp heq)
    rw [ruleOfLine?, hnone]
    rfl
  | comment text =>
    rw [ruleOfLine?_encode, Rule.ofLine?_eq_none_iff]
    exact .inl rfl
  | blank h =>
    rw [ruleOfLine?_encode, Rule.ofLine?_eq_none_iff]
    exact .inr (.inl h)
  | notGlob h =>
    rw [ruleOfLine?_encode, Rule.ofLine?_eq_none_iff]
    exact .inr (.inr h)

/-- A line writes down no rule if and only if it is of one of the four kinds. -/
theorem ruleOfLine?_eq_none_iff : ruleOfLine? line = none ↔ Inert line := by
  refine ⟨fun h => ?_, Inert.ruleOfLine?_eq⟩
  cases hdecode : Text.Utf8.decode? line with
  | none =>
    refine .notUtf8 fun text heq => ?_
    rw [Text.Utf8.decode?_eq_some_iff.mpr heq] at hdecode
    cases hdecode
  | some text =>
    obtain rfl := Text.Utf8.eq_encode_of_decode? hdecode
    rw [← String.ofList_toList (s := text), ruleOfLine?_encode, Rule.ofLine?_eq_none_iff] at h
    rw [← String.ofList_toList (s := text)]
    rcases h with hcomment | hblank | hglob
    · obtain ⟨rest, hrest⟩ := List.head?_eq_some_iff.mp hcomment
      rw [hrest]
      exact .comment rest
    · exact .blank hblank
    · exact .notGlob hglob

instance (line : List UInt8) : Decidable (Inert line) :=
  decidable_of_iff ((ruleOfLine? line).isNone = true)
    (Option.isNone_iff_eq_none.trans ruleOfLine?_eq_none_iff)

/-! ## One line alone -/

theorem ofText?_eq_some_iff_rulesOf :
    ofText? text = some rs ↔
      rs.rules = rulesOf text ∧ ∀ r ∈ rulesOf text, r.glob.isAcceptable = true := by
  obtain ⟨rules⟩ := rs
  unfold ofText?
  by_cases hflat : ∀ r ∈ rulesOf text, r.glob.isAcceptable = true
  · rw [if_pos (List.all_eq_true.mpr hflat), Option.some.injEq, mk.injEq, eq_comm]
    exact (and_iff_left hflat).symm
  · rw [if_neg (mt List.all_eq_true.mp hflat)]
    simp only [hflat, and_false, reduceCtorEq]

/-- The rules of a text are those of its lines. -/
theorem rulesOf_of_cuts (h : Text.Cuts newline text ls) :
    rulesOf text = ls.filterMap ruleOfLine? := by
  rw [rulesOf, h.pieces_eq]

/-- What a line alone builds: its rule, if it writes one down. -/
def alone (line : List UInt8) : RuleSet :=
  ⟨(ruleOfLine? line).toList⟩

theorem length_alone_le (line : List UInt8) : (alone line).rules.length ≤ 1 := by
  unfold alone
  cases ruleOfLine? line <;> simp

theorem alone_eq_empty_iff : alone line = ⟨[]⟩ ↔ Inert line := by
  simp [alone, ← ruleOfLine?_eq_none_iff]

theorem ofText?_line (hfree : newline ∉ line) :
    ofText? line = some rs ↔
      rs = alone line ∧ ∀ r ∈ ruleOfLine? line, r.glob.isAcceptable = true := by
  obtain ⟨rules⟩ := rs
  rw [ofText?_eq_some_iff_rulesOf, rulesOf_of_cuts (Text.cuts_singleton hfree), alone, mk.injEq]
  cases h : ruleOfLine? line <;> simp [h]

/-- A line alone builds no rule if and only if it is inert. -/
theorem ofText?_eq_empty_iff (hfree : newline ∉ line) : ofText? line = some ⟨[]⟩ ↔ Inert line := by
  rw [ofText?_line hfree, eq_comm, alone_eq_empty_iff]
  refine and_iff_left_of_imp fun hinert r hr => ?_
  rw [hinert.ruleOfLine?_eq] at hr
  cases hr

/-! ## Lines together -/

/-- Lines build one by one if and only if no rule of theirs is refused. -/
theorem map_ofText?_eq_iff (hfree : ∀ line ∈ ls, newline ∉ line) {sets : List RuleSet} :
    ls.map ofText? = sets.map some ↔
      sets = ls.map alone ∧ ∀ r ∈ ls.filterMap ruleOfLine?, r.glob.isAcceptable = true := by
  induction ls generalizing sets with
  | nil => simp
  | cons line ls ih =>
    obtain ⟨hline, hls⟩ := List.forall_mem_cons.mp hfree
    cases sets with
    | nil => simp
    | cons one sets =>
      rw [List.map_cons, List.map_cons, List.cons.injEq, ofText?_line hline, ih hls, List.map_cons,
        List.cons.injEq]
      cases h : ruleOfLine? line <;> simp [h] <;> tauto

theorem flatMap_rules_alone (ls : List (List UInt8)) :
    (ls.map alone).flatMap rules = ls.filterMap ruleOfLine? := by
  induction ls with
  | nil => rfl
  | cons line ls ih =>
    rw [List.map_cons, List.flatMap_cons, ih, alone]
    cases h : ruleOfLine? line <;> simp [h]

/-- A text builds if and only if its lines do, and its rules are those of its lines. -/
theorem ofText?_eq_some_iff (h : Text.Cuts newline text ls) :
    ofText? text = some rs ↔
      ∃ sets : List RuleSet, ls.map ofText? = sets.map some ∧ rs.rules = sets.flatMap rules := by
  rw [ofText?_eq_some_iff_rulesOf, rulesOf_of_cuts h]
  constructor
  · rintro ⟨hrules, hflat⟩
    exact ⟨_, (map_ofText?_eq_iff h.free).mpr ⟨rfl, hflat⟩,
      hrules.trans (flatMap_rules_alone ls).symm⟩
  · rintro ⟨sets, hsets, hrules⟩
    obtain ⟨rfl, hflat⟩ := (map_ofText?_eq_iff h.free).mp hsets
    exact ⟨hrules.trans (flatMap_rules_alone ls), hflat⟩

/-- There are as many rules as lines that are not inert. -/
theorem ignoreCount_add_whitelistCount (h : Text.Cuts newline text ls)
    (hrs : ofText? text = some rs) :
    rs.ignoreCount + rs.whitelistCount = ls.countP fun line => ¬ Inert line := by
  have hlength : rs.rules.length = ls.countP fun line => ¬ Inert line := by
    rw [(ofText?_eq_some_iff_rulesOf.mp hrs).1, rulesOf_of_cuts h,
      List.length_filterMap_eq_countP]
    refine List.countP_congr fun line _ => ?_
    rw [decide_eq_true_iff, ← ruleOfLine?_eq_none_iff, Option.isSome_iff_ne_none]
  rw [← hlength, List.length_eq_countP_add_countP (fun r => r.whitelist), Nat.add_comm]
  simp [ignoreCount, whitelistCount]

/-! ## Inert lines come and go -/

/-- The second list is the first with inert lines put in and taken out. -/
inductive Reworks : List (List UInt8) → List (List UInt8) → Prop where
  | nil : Reworks [] []
  | keep (line : List UInt8) {ls ls' : List (List UInt8)} (h : Reworks ls ls') :
      Reworks (line :: ls) (line :: ls')
  | insert {line : List UInt8} {ls ls' : List (List UInt8)} (hinert : Inert line)
      (h : Reworks ls ls') : Reworks ls (line :: ls')
  | delete {line : List UInt8} {ls ls' : List (List UInt8)} (hinert : Inert line)
      (h : Reworks ls ls') : Reworks (line :: ls) ls'

theorem Reworks.filterMap_eq (h : Reworks ls ls') :
    ls'.filterMap ruleOfLine? = ls.filterMap ruleOfLine? := by
  induction h with
  | nil => rfl
  | keep line _ ih => rw [List.filterMap_cons, List.filterMap_cons, ih]
  | insert hinert _ ih => rw [List.filterMap_cons_none hinert.ruleOfLine?_eq, ih]
  | delete hinert _ ih => rw [List.filterMap_cons_none hinert.ruleOfLine?_eq, ih]

/-- A text builds what it has built, when inert lines have been put in and taken out. -/
theorem Reworks.ofText?_eq (h : Reworks ls ls') (hls : Text.Cuts newline text ls)
    (hls' : Text.Cuts newline text' ls') : ofText? text' = ofText? text := by
  have hrules : rulesOf text' = rulesOf text := by
    rw [rulesOf_of_cuts hls, rulesOf_of_cuts hls', h.filterMap_eq]
  rw [ofText?, ofText?, hrules]

end RuleSet

end PathSieve

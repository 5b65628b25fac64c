/-
  The lines of a matcher's rules.

  A matcher is made from a list of rule strings, which are joined by newlines before they
  are compiled. A string that holds newlines itself counts as its lines: the list that is
  cut into lines makes the same matcher, over any module (`openOn_flatMap_lines`). The rule
  set under the handle of a new matcher is the one that the joined strings build
  (`loaded_of_openOn`), and that is built line by line (`ofText?_unlines_eq_some_iff`).
-/
import PathSieve.Matcher.Basic
import PathSieve.Proofs.Pool.Stock
import PathSieve.Proofs.Rule.Lines

namespace PathSieve

open Text.Utf8 (encode)

/-- The lines of joined strings join to the same text. -/
theorem Text.unlines_flatMap_lines (ls : List String) :
    unlines (ls.flatMap lines) = unlines ls := by
  cases ls with
  | nil => rfl
  | cons l ls => rw [← lines_unlines (List.cons_ne_nil l ls), unlines_lines]

/-- Joined strings build if and only if each line of each string does, and their rules are
    those of the lines. -/
theorem RuleSet.ofText?_unlines_eq_some_iff {strings : List String} {rs : RuleSet} :
    ofText? (encode (Text.unlines strings)) = some rs ↔
      ∃ sets : List RuleSet,
        (strings.flatMap Text.lines).map (fun line => ofText? (encode line)) = sets.map some ∧
        rs.rules = sets.flatMap rules := by
  cases strings with
  | nil =>
    -- no string at all joins to one empty line, which is inert
    have hrules : rulesOf [] = [] := by
      rw [rulesOf_of_cuts (Text.cuts_pieces newline []), Text.pieces_nil,
        List.filterMap_cons_none inert_nil.ruleOfLine?_eq, List.filterMap_nil]
    show ofText? [] = some rs ↔ _
    rw [ofText?_eq_some_iff_rulesOf, hrules]
    simp
  | cons l ls =>
    have hcuts := Text.cuts_encode (Text.unlines (l :: ls))
    rw [Text.lines_unlines (List.cons_ne_nil l ls)] at hcuts
    rw [ofText?_eq_some_iff hcuts, List.map_map]
    rfl

namespace Matcher

variable {μ σ : Type}

/-- Strings that are cut into lines make the same matcher. -/
theorem openOn_flatMap_lines [Backend σ] [Module μ σ] (strings : List String)
    (l : Lending μ σ) : openOn (strings.flatMap Text.lines) l = openOn strings l := by
  unfold openOn
  rw [Text.unlines_flatMap_lines]

/-- The instance of a new matcher is loaded with the rule set that its strings build. -/
theorem loaded_of_openOn {l l' : GuestLending} (hstock : l.Stocked) {strings : List String}
    {m : Matcher Guest} (h : openOn strings l = (.ok m, l')) :
    ∃ inst rs, m.lease = some inst ∧ inst.Loaded m.handle rs ∧
      RuleSet.ofText? (encode (Text.unlines strings)) = some rs := by
  obtain ⟨inst, mid, hacq, -, -, howns, hblank⟩ := hstock.acquire
  obtain ⟨done, -, hcompile⟩ := Instance.perform_compile_blank howns hblank (Text.unlines strings)
  unfold openOn at h
  rw [hacq] at h
  cases hanswer : Instance.compileAnswer (Instance.roomUnder mid.pool.module.maxPages)
      (Text.unlines strings) with
  | error e =>
    rw [hanswer] at hcompile
    simp [hcompile.1] at h
  | ok rs =>
    rw [hanswer] at hcompile
    obtain ⟨handle, hdone, hloaded⟩ := hcompile
    simp only [hdone, Prod.mk.injEq, Except.ok.injEq] at h
    obtain ⟨rfl, -⟩ := h
    exact ⟨done, rs, rfl, hloaded, Instance.ofText?_of_compileAnswer hanswer⟩

end Matcher

namespace RuleSet

open Matcher

/-- A rule text is compiled line by line. Its rules are what each of its lines builds alone,
    in order, which is one rule or none; none if and only if the line is inert. So there are
    as many rules as other lines, and texts that differ in inert lines build one rule set.
    Strings that are joined to make a matcher count as their lines. -/
theorem compiles_line_by_line {text : List UInt8} {ls : List (List UInt8)} {rs : RuleSet}
    (hls : Text.Cuts newline text ls) (hrs : ofText? text = some rs) :
    (∃ sets : List RuleSet, ls.map ofText? = sets.map some ∧ rs.rules = sets.flatMap rules ∧
      ∀ one ∈ sets, one.rules.length ≤ 1) ∧
    (∀ line ∈ ls, ofText? line = some ⟨[]⟩ ↔ Inert line) ∧
    rs.ignoreCount + rs.whitelistCount = (ls.countP fun line => ¬ Inert line) ∧
    (∀ text' ls', Text.Cuts newline text' ls' → Reworks ls ls' → ofText? text' = some rs) ∧
    ∀ strings : List String,
      (∀ (μ σ : Type) [Backend σ] [Module μ σ] (l : Lending μ σ),
        openOn (strings.flatMap Text.lines) l = openOn strings l) ∧
      ∀ (l l' : GuestLending) (m : Matcher Guest), l.Stocked → openOn strings l = (.ok m, l') →
        ∃ inst made, m.lease = some inst ∧ inst.Loaded m.handle made ∧
          ∃ sets : List RuleSet,
            (strings.flatMap Text.lines).map (fun line => ofText? (encode line)) =
              sets.map some ∧ made.rules = sets.flatMap rules := by
  refine ⟨?_, fun line hline => ?_, ignoreCount_add_whitelistCount hls hrs,
    fun text' ls' hls' hreworks => ?_, fun strings => ⟨fun μ σ _ _ l => ?_, ?_⟩⟩
  · obtain ⟨sets, hsets, hrules⟩ := (ofText?_eq_some_iff hls).mp hrs
    refine ⟨sets, hsets, hrules, ?_⟩
    obtain ⟨rfl, -⟩ := (map_ofText?_eq_iff hls.free).mp hsets
    exact List.forall_mem_map.mpr fun line _ => length_alone_le line
  · exact ofText?_eq_empty_iff (hls.free line hline)
  · rw [hreworks.ofText?_eq hls hls', hrs]
  · exact openOn_flatMap_lines strings l
  · intro l l' m hstock hopen
    obtain ⟨inst, made, hlease, hloaded, hmade⟩ := loaded_of_openOn hstock hopen
    exact ⟨inst, made, hlease, hloaded, ofText?_unlines_eq_some_iff.mp hmade⟩

/-- Two rules among lines that write none. -/
def amongInert : List (List UInt8) :=
  [encode "*.log", [0xFF, 0xFE], encode "# note", encode "\u00a0\t", encode "[z-a]",
    encode "!keep.log"]

/-- A pool that nobody has used. -/
def unused : GuestLending :=
  ⟨{ id := 1, module := ⟨1, 4096⟩, config := {} }, 1⟩

/-- The strings of a matcher count as their three lines, of which two write a rule. -/
theorem compiles_line_by_line_amongInert :
    ∃ rs, ofText? (Text.glue newline amongInert) = some rs ∧
      rs.ignoreCount + rs.whitelistCount = 2 ∧
      ofText? (encode "*.log\n!keep.log\n") = some rs ∧
      openOn ["*.log", "# note", "!keep.log"] unused =
        openOn ["*.log\n# note", "!keep.log"] unused ∧
      ∃ m l inst made, openOn ["*.log\n# note", "!keep.log"] unused = (.ok m, l) ∧
        m.lease = some inst ∧ inst.Loaded m.handle made ∧
        ∃ sets : List RuleSet,
          ["*.log", "# note", "!keep.log"].map (fun line => ofText? (encode line)) =
            sets.map some ∧ made.rules = sets.flatMap rules := by
  obtain ⟨rs, hrs⟩ : ∃ rs, ofText? (Text.glue newline amongInert) = some rs :=
    Option.isSome_iff_exists.mp (by decide +kernel)
  have hls : Text.Cuts newline (Text.glue newline amongInert) amongInert :=
    Text.cuts_iff.mpr (by decide +kernel)
  have hls' : Text.Cuts newline (encode "*.log\n!keep.log\n")
      [encode "*.log", encode "!keep.log", []] :=
    Text.cuts_iff.mpr (by decide +kernel)
  obtain ⟨-, -, hcount, hreworks, hstrings⟩ := compiles_line_by_line hls hrs
  obtain ⟨hsame, hmade⟩ := hstrings ["*.log\n# note", "!keep.log"]
  have hlines : ["*.log\n# note", "!keep.log"].flatMap Text.lines =
      ["*.log", "# note", "!keep.log"] := by
    decide +kernel
  rw [hlines] at hsame hmade
  refine ⟨rs, hrs, hcount.trans (by decide +kernel), hreworks _ _ hls' ?_, hsame _ _ unused, ?_⟩
  · exact .keep _ (.delete (by decide +kernel) (.delete (by decide +kernel)
      (.delete (by decide +kernel) (.delete (by decide +kernel)
        (.keep _ (.insert inert_nil .nil))))))
  · have hok : (openOn ["*.log\n# note", "!keep.log"] unused).1.toOption.isSome = true := by
      decide +kernel
    rcases hopen : openOn ["*.log\n# note", "!keep.log"] unused with ⟨_ | m, l⟩
    · rw [hopen] at hok
      cases hok
    · obtain ⟨inst, made, hloaded⟩ :=
        hmade unused l m (Lending.stocked_new rfl 1 1) hopen
      exact ⟨m, l, inst, made, rfl, hloaded⟩

end RuleSet

end PathSieve

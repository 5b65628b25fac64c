/-
  Later rules win, level by level.

  Two rule texts joined by a newline make the rules of the first and then those of the
  second (`ofText?_append`). Which of them decides about a path goes by two orders. The
  nearer level comes first, whichever text its rules are from (`earlier_decides`,
  `later_decides`); only where both decide at one level does the later text have its way.
  So a rule at the end of a text is overruled by a rule before it that matches the path
  itself, when it matches but a directory above the path.
-/
import PathSieve.Proofs.Rule.Judgement
import PathSieve.Proofs.Rule.Lines

namespace PathSieve

section LastMatch

variable {rung : Rung} {rules : List Rule} {r : Rule}

theorem LastMatch.append_left (h : LastMatch rung rules r) (earlier : List Rule) :
    LastMatch rung (earlier ++ rules) r := by
  obtain ⟨hr, hlater⟩ := h
  rw [← List.append_assoc]
  exact .mk hr hlater

theorem LastMatch.append_right (h : LastMatch rung rules r) {later : List Rule}
    (hlater : ∀ r' ∈ later, ¬ r'.MatchesAt rung) : LastMatch rung (rules ++ later) r := by
  obtain ⟨hr, hlater'⟩ := h
  rw [List.append_assoc, List.cons_append]
  exact .mk hr (List.forall_mem_append.mpr ⟨hlater', hlater⟩)

end LastMatch

namespace RuleSet

open Text.Utf8 (encode)

variable {a b c : RuleSet} {rungs : List Rung} {rung : Rung} {r : Rule} {m n : Nat}
  {va vb : Verdict} {A B : List UInt8}

/-! ## Rules of one set and then of another -/

section

variable (hc : c.rules = a.rules ++ b.rules)
include hc

theorem matchesAt_append_iff : c.MatchesAt rung ↔ a.MatchesAt rung ∨ b.MatchesAt rung := by
  simp only [MatchesAt, hc, List.mem_append, or_and_right, exists_or]

/-- A rule of the first set decides if the second has none that matches as near. -/
theorem earlier_decides (hm : a.DecidesAt rungs m) (hrung : rungs[m]? = some rung)
    (hr : LastMatch rung a.rules r)
    (hb : ∀ k ≤ m, ∀ rung, rungs[k]? = some rung → ¬ b.MatchesAt rung) :
    Judges c rungs r.verdict := by
  have hlast : LastMatch rung c.rules r := by
    rw [hc]
    exact hr.append_right fun r' hr' hmatch => hb m (Nat.le_refl m) rung hrung ⟨r', hr', hmatch⟩
  refine .decided ⟨⟨rung, hrung, matchesAt_of_lastMatch hlast⟩, fun k hk near hnear => ?_⟩
    hrung hlast
  rw [matchesAt_append_iff hc, not_or]
  exact ⟨hm.nearest k hk near hnear, hb k (Nat.le_of_lt hk) near hnear⟩

/-- A rule of the second set decides if the first has none that matches nearer. -/
theorem later_decides (hn : b.DecidesAt rungs n) (hrung : rungs[n]? = some rung)
    (hr : LastMatch rung b.rules r)
    (ha : ∀ k < n, ∀ rung, rungs[k]? = some rung → ¬ a.MatchesAt rung) :
    Judges c rungs r.verdict := by
  have hlast : LastMatch rung c.rules r := by
    rw [hc]
    exact hr.append_left a.rules
  refine .decided ⟨⟨rung, hrung, matchesAt_of_lastMatch hlast⟩, fun k hk near hnear => ?_⟩
    hrung hlast
  rw [matchesAt_append_iff hc, not_or]
  exact ⟨ha k hk near hnear, hn.nearest k hk near hnear⟩

/-- What the rules of two sets say together, by what each says. -/
theorem Judges.append (ha : Judges a rungs va) (hb : Judges b rungs vb) :
    ∃ vc, Judges c rungs vc ∧ (vb = .unmatched → vc = va) ∧ (va = .unmatched → vc = vb) ∧
      (va ≠ .unmatched → vb ≠ .unmatched →
        ∃ m n, a.DecidesAt rungs m ∧ b.DecidesAt rungs n ∧ vc = if n ≤ m then vb else va) := by
  cases ha with
  | unmatched ha =>
    cases hb with
    | unmatched hb =>
      refine ⟨.unmatched, .unmatched fun rung hrung => ?_, by simp⟩
      rw [matchesAt_append_iff hc, not_or]
      exact ⟨ha rung hrung, hb rung hrung⟩
    | decided hn hrung hr =>
      refine ⟨_, later_decides hc hn hrung hr fun _ _ near hnear => ?_, ?_⟩
      · exact ha near (List.mem_of_getElem? hnear)
      · simp [Rule.verdict_ne_unmatched]
  | @decided m _ ra hm hrung hr =>
    cases hb with
    | unmatched hb =>
      refine ⟨_, earlier_decides hc hm hrung hr fun _ _ near hnear => ?_, ?_⟩
      · exact hb near (List.mem_of_getElem? hnear)
      · simp [Rule.verdict_ne_unmatched]
    | @decided n _ rb hn hrung' hr' =>
      by_cases hle : n ≤ m
      · refine ⟨_, later_decides hc hn hrung' hr' fun k hk => ?_, ?_⟩
        · exact hm.nearest k (Nat.lt_of_lt_of_le hk hle)
        · simp only [Rule.verdict_ne_unmatched, false_implies, true_and]
          exact fun _ _ => ⟨m, n, hm, hn, (if_pos hle).symm⟩
      · refine ⟨_, earlier_decides hc hm hrung hr fun k hk => ?_, ?_⟩
        · exact hn.nearest k (by omega)
        · simp only [Rule.verdict_ne_unmatched, false_implies, true_and]
          exact fun _ _ => ⟨m, n, hm, hn, (if_neg hle).symm⟩

end

/-! ## Texts joined by a newline -/

/-- Two texts that build, joined by a newline, build the rules of both. -/
theorem ofText?_append (hA : ofText? A = some a) (hB : ofText? B = some b) :
    ofText? (A ++ newline :: B) = some ⟨a.rules ++ b.rules⟩ := by
  obtain ⟨harules, hacceptA⟩ := ofText?_eq_some_iff_rulesOf.mp hA
  obtain ⟨hbrules, hacceptB⟩ := ofText?_eq_some_iff_rulesOf.mp hB
  have hrules : rulesOf (A ++ newline :: B) = rulesOf A ++ rulesOf B := by
    rw [rulesOf, Text.pieces_append_sep, List.filterMap_append]
    rfl
  rw [ofText?_eq_some_iff_rulesOf, hrules, harules, hbrules]
  exact ⟨rfl, List.forall_mem_append.mpr ⟨hacceptA, hacceptB⟩⟩

/-- Two texts that build do so when they are joined by a newline, and there is an answer about
    a path on which both have one. If no rule of the one text matches at any level, it is the
    answer of the other. If rules of both match, it is that of the later text when its deciding
    level is at least as near as that of the earlier text, and that of the earlier text when
    it is not. -/
theorem later_rules_win (hA : ofText? A = some a) (hB : ofText? B = some b) {p : List UInt8}
    {isDir : Bool} (hva : a.verdict? p isDir = some va) (hvb : b.verdict? p isDir = some vb) :
    ∃ c vc, ofText? (A ++ newline :: B) = some c ∧ c.verdict? p isDir = some vc ∧
      (vb = .unmatched → vc = va) ∧ (va = .unmatched → vc = vb) ∧
      (va ≠ .unmatched → vb ≠ .unmatched →
        ∃ path rungs m n, Path.relative? p = some path ∧ Ladder path isDir rungs ∧
          a.DecidesAt rungs m ∧ b.DecidesAt rungs n ∧ vc = if n ≤ m then vb else va) := by
  refine ⟨⟨a.rules ++ b.rules⟩, ?_⟩
  rcases verdict?_eq_some_iff.mp hva with ⟨hnone, rfl⟩ | ⟨hsome, path, rungs, hpath, hladder, ha⟩
  · -- without rules of the first text it is the second
    have heq : (⟨a.rules ++ b.rules⟩ : RuleSet) = b := by rw [hnone, List.nil_append]
    exact ⟨vb, ofText?_append hA hB, by rw [heq, hvb], by simp⟩
  rcases verdict?_eq_some_iff.mp hvb with ⟨hnone, rfl⟩ | ⟨-, path', rungs', hpath', hladder', hb⟩
  · have heq : (⟨a.rules ++ b.rules⟩ : RuleSet) = a := by rw [hnone, List.append_nil]
    exact ⟨va, ofText?_append hA hB, by rw [heq, hva], by simp⟩
  obtain rfl := Option.some.inj (hpath.symm.trans hpath')
  obtain rfl := hladder.unique hladder'
  obtain ⟨vc, hc, hleft, hright, hboth⟩ := ha.append (c := ⟨a.rules ++ b.rules⟩) rfl hb
  refine ⟨vc, ofText?_append hA hB, ?_, hleft, hright, fun hva hvb => ?_⟩
  · rw [verdict?_eq_some_iff]
    exact .inr ⟨by simp [hsome], path, rungs, hpath, hladder, hc⟩
  · obtain ⟨m, n, hm, hn, hvc⟩ := hboth hva hvb
    exact ⟨path, rungs, m, n, hpath, hladder, hm, hn, hvc⟩

/-- A file that the earlier text lets through stays, though the later text ignores the
    directory it is in. -/
theorem later_rules_win_keep :
    ∃ a b, ofText? (encode "!keep.log") = some a ∧ ofText? (encode "build/") = some b ∧
      a.verdict? (encode "build/keep.log") false = some .whitelisted ∧
      b.verdict? (encode "build/keep.log") false = some .ignored ∧
      ∃ path rungs m n, Path.relative? (encode "build/keep.log") = some path ∧
        Ladder path false rungs ∧ a.DecidesAt rungs m ∧ b.DecidesAt rungs n ∧ m < n := by
  have hkeep : ((ofText? (encode "!keep.log")).bind fun a =>
      a.verdict? (encode "build/keep.log") false) = some .whitelisted := by decide +kernel
  have hbuild : ((ofText? (encode "build/")).bind fun b =>
      b.verdict? (encode "build/keep.log") false) = some .ignored := by decide +kernel
  have hboth : ((ofText? (encode "!keep.log" ++ newline :: encode "build/")).bind fun c =>
      c.verdict? (encode "build/keep.log") false) = some .whitelisted := by decide +kernel
  obtain ⟨a, hA, hva⟩ := Option.bind_eq_some_iff.mp hkeep
  obtain ⟨b, hB, hvb⟩ := Option.bind_eq_some_iff.mp hbuild
  obtain ⟨c, vc, hc, hvc, -, -, hlevels⟩ := later_rules_win hA hB hva hvb
  obtain ⟨path, rungs, m, n, hpath, hladder, hm, hn, hwins⟩ := hlevels (by decide) (by decide)
  rw [hc, Option.bind_some, hvc] at hboth
  refine ⟨a, b, hA, hB, hva, hvb, path, rungs, m, n, hpath, hladder, hm, hn, ?_⟩
  by_contra hle
  rw [if_pos (Nat.not_lt.mp hle)] at hwins
  rw [hwins] at hboth
  cases hboth

end RuleSet

end PathSieve

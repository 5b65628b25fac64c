/-
  Which lines of a path list are kept, line by line.

  A rule set looks at each line by itself. So it has an answer to a list when it has one
  for every line that is not empty (`Decides`), and what it keeps of a list is a plain
  filter (`kept`) that goes through appending and through cutting into lines.
-/
import PathSieve.Proofs.Text.Weight
import PathSieve.Rule.Set

namespace PathSieve.RuleSet

/-- What a rule set says of a line of a path list. -/
def verdictOfLine? (rs : RuleSet) (line : String) : Option Verdict :=
  rs.verdict? (pathOfLine line).1 (pathOfLine line).2

/-- Is there an answer for every line that is not empty? -/
def Decides (rs : RuleSet) (ls : List String) : Prop :=
  ∀ l ∈ ls, l ≠ "" → (rs.verdictOfLine? l).isSome

/-- The lines that are not empty and not ignored. -/
def kept (rs : RuleSet) (ls : List String) : List String :=
  ls.filter fun l => !l.isEmpty && (rs.verdictOfLine? l).any (· != .ignored)

variable {rs : RuleSet}

theorem keeps?_eq (rs : RuleSet) (line : String) :
    rs.keeps? line = (rs.verdictOfLine? line).map (· != .ignored) := rfl

theorem decides_append {ls ms : List String} :
    rs.Decides (ls ++ ms) ↔ rs.Decides ls ∧ rs.Decides ms := by
  simp only [Decides, List.mem_append, or_imp, forall_and]

theorem kept_append (ls ms : List String) : rs.kept (ls ++ ms) = rs.kept ls ++ rs.kept ms :=
  List.filter_append ..

/-- What is kept of chunks, one after the other, is what is kept of the whole. -/
theorem kept_flatten (f : String → List String) (chunks : List (List String)) :
    rs.kept (chunks.flatten.flatMap f) =
      (chunks.map fun chunk => rs.kept (chunk.flatMap f)).flatten := by
  induction chunks with
  | nil => rfl
  | cons chunk chunks ih =>
    rw [List.flatten_cons, List.flatMap_append, kept_append, ih, List.map_cons, List.flatten_cons]

theorem kept_sublist (ls : List String) : (rs.kept ls).Sublist ls :=
  List.filter_sublist

theorem ne_empty_of_mem_kept {l : String} {ls : List String} (h : l ∈ rs.kept ls) : l ≠ "" := by
  have := (List.mem_filter.mp h).2
  intro heq
  subst heq
  simp at this

/-- The lines that are kept, when there is an answer for every line. -/
theorem keptLines?_eq_some_iff {text : String} {ls : List String} :
    rs.keptLines? text = some ls ↔
      rs.Decides (Text.lines text) ∧ ls = rs.kept (Text.lines text) := by
  have hall : (((Text.lines text).filter fun l => !l.isEmpty).map fun l =>
      (l, rs.keeps? l)).all (fun j => j.2.isSome) = true ↔ rs.Decides (Text.lines text) := by
    simp [Decides, keeps?_eq, List.all_eq_true, Classical.or_iff_not_imp_left]
  have hkept : ((((Text.lines text).filter fun l => !l.isEmpty).map fun l =>
      (l, rs.keeps? l)).filter fun j => j.2 == some true).map Prod.fst =
        rs.kept (Text.lines text) := by
    rw [List.filter_map, List.map_map, List.filter_filter]
    unfold kept
    rw [show (Prod.fst ∘ fun l : String => (l, rs.keeps? l)) = id from rfl, List.map_id]
    refine List.filter_congr fun l _ => ?_
    rw [Bool.and_comm, Function.comp_apply, keeps?_eq]
    cases rs.verdictOfLine? l <;> simp
  unfold keptLines?
  simp only [hkept]
  split
  · next h => simp [hall.mp h, eq_comm]
  · next h => simp [mt hall.mpr h]

/-- What is kept of joined texts is what is kept of their lines. -/
theorem keptLines?_unlines {paths : List String} (hne : paths ≠ []) {ls : List String} :
    rs.keptLines? (Text.unlines paths) = some ls ↔
      rs.Decides (paths.flatMap Text.lines) ∧ ls = rs.kept (paths.flatMap Text.lines) := by
  rw [keptLines?_eq_some_iff, Text.lines_unlines hne]

/-- Cutting the text of the kept lines gives them back. -/
theorem lines_unlines_kept {ls : List String} (hls : ∀ l ∈ ls, '\n' ∉ l.toList)
    (hne : rs.kept ls ≠ []) : Text.lines (Text.unlines (rs.kept ls)) = rs.kept ls := by
  rw [Text.lines_unlines hne]
  exact Text.flatMap_lines_eq_self fun l hl => hls l ((kept_sublist ls).subset hl)

theorem weight_kept_le (rs : RuleSet) (text : String) :
    Text.weight (rs.kept (Text.lines text)) ≤ (Text.Utf8.encode text).length + 1 := by
  rw [← Text.weight_lines]
  exact Text.weight_le_of_sublist (kept_sublist _)

/-- The text of the kept lines is not empty and no longer than the text they come from, and
    there are no more kept lines than bytes. -/
theorem length_kept_le {text : String} (hne : rs.kept (Text.lines text) ≠ []) :
    0 < (Text.Utf8.encode (Text.unlines (rs.kept (Text.lines text)))).length ∧
      (Text.Utf8.encode (Text.unlines (rs.kept (Text.lines text)))).length ≤
        (Text.Utf8.encode text).length ∧
      (rs.kept (Text.lines text)).length ≤ (Text.Utf8.encode text).length := by
  have hle := weight_kept_le rs text
  have hlen := Text.length_encode_unlines hne
  cases hkept : rs.kept (Text.lines text) with
  | nil => exact absurd hkept hne
  | cons l ls =>
    have hl : l ≠ "" := ne_empty_of_mem_kept (hkept ▸ List.mem_cons_self)
    have hpos : 0 < (Text.Utf8.encode l).length :=
      List.length_pos_iff.mpr (mt Text.Utf8.encode_eq_nil_iff.mp hl)
    have := Text.length_le_weight ls
    rw [hkept] at hle hlen
    rw [Text.weight_cons] at hle hlen
    rw [List.length_cons]
    omega

/-- Where anything is kept, its text is not empty and no longer than the text it comes from,
    there are no more kept lines than bytes, and cutting the text of the kept lines gives them
    back. -/
theorem bounds_of_keptLines? {text l : String} {ls : List String}
    (h : rs.keptLines? text = some (l :: ls)) :
    0 < (Text.Utf8.encode (Text.unlines (l :: ls))).length ∧
      (Text.Utf8.encode (Text.unlines (l :: ls))).length ≤ (Text.Utf8.encode text).length ∧
      (l :: ls).length ≤ (Text.Utf8.encode text).length ∧
      Text.lines (Text.unlines (l :: ls)) = l :: ls := by
  obtain ⟨-, hls⟩ := keptLines?_eq_some_iff.mp h
  have hne : rs.kept (Text.lines text) ≠ [] := hls ▸ List.cons_ne_nil l ls
  obtain ⟨hpos, hle, hcount⟩ := length_kept_le hne
  rw [hls]
  exact ⟨hpos, hle, hcount, lines_unlines_kept (fun _ => Text.not_mem_of_mem_lines) hne⟩

/-- The path of a line is a text. -/
theorem exists_encode_eq_pathOfLine (line : String) :
    ∃ path, (pathOfLine line).1 = Text.Utf8.encode path := by
  unfold pathOfLine
  simp only
  split
  · next hlast => exact Text.Utf8.dropLast_encode (by decide) hlast
  · exact ⟨line, rfl⟩

/-- The path of a line takes no more room than the line. -/
theorem length_pathOfLine_le (line : String) :
    (pathOfLine line).1.length ≤ (Text.Utf8.encode line).length := by
  unfold pathOfLine
  simp only
  split
  · simp
  · exact Nat.le_refl _

end PathSieve.RuleSet

/-
  Taking blanks off both ends.

  A text stripped of blanks is what stands between them and neither begins nor ends with
  one (`Strips`). Trimming finds it (`trim_of_strips`, `strips_trim`), and it does not matter
  how many blanks there were (`Strips.pad`).
-/
import PathSieve.Text.Blank
import Mathlib.Tactic.Common

namespace PathSieve.Text

/-- The first text is the second with blanks before and after it, and the second neither
    begins nor ends with a blank. -/
inductive Strips : List Char → List Char → Prop where
  | mk {before cs after : List Char} (hbefore : ∀ c ∈ before, isBlank c = true)
      (hafter : ∀ c ∈ after, isBlank c = true) (hfirst : ∀ c ∈ cs.head?, isBlank c = false)
      (hlast : ∀ c ∈ cs.getLast?, isBlank c = false) : Strips (before ++ cs ++ after) cs

theorem dropWhile_isBlank {before cs : List Char} (hbefore : ∀ c ∈ before, isBlank c = true)
    (hfirst : ∀ c ∈ cs.head?, isBlank c = false) : (before ++ cs).dropWhile isBlank = cs := by
  rw [List.dropWhile_append_of_pos hbefore]
  cases cs with
  | nil => rfl
  | cons c cs => simp [hfirst c rfl]

theorem trimEnd_append {cs after : List Char} (hafter : ∀ c ∈ after, isBlank c = true)
    (hlast : ∀ c ∈ cs.getLast?, isBlank c = false) : trimEnd (cs ++ after) = cs := by
  rw [trimEnd, List.reverse_append,
    dropWhile_isBlank (by simpa using hafter) (by simpa using hlast), List.reverse_reverse]

/-- A text is its beginning without the blanks at the end, and then blanks. -/
theorem exists_trimEnd (cs : List Char) : ∃ after, cs = trimEnd cs ++ after ∧
    (∀ c ∈ after, isBlank c = true) ∧ ∀ c ∈ (trimEnd cs).getLast?, isBlank c = false := by
  refine ⟨(cs.reverse.takeWhile isBlank).reverse, ?_, ?_, ?_⟩
  · rw [trimEnd, ← List.reverse_append, List.takeWhile_append_dropWhile, List.reverse_reverse]
  · intro c hc
    exact List.all_eq_true.mp List.all_takeWhile c (List.mem_reverse.mp hc)
  · intro c hc
    rw [trimEnd, List.getLast?_reverse] at hc
    have hnot := List.head?_dropWhile_not isBlank cs.reverse
    rw [Option.mem_def.mp hc] at hnot
    exact hnot

/-- Only blanks leave nothing. -/
theorem trimEnd_eq_nil_iff {cs : List Char} : trimEnd cs = [] ↔ ∀ c ∈ cs, isBlank c = true := by
  constructor
  · intro h
    obtain ⟨after, hsplit, hafter, -⟩ := exists_trimEnd cs
    rw [h, List.nil_append] at hsplit
    exact hsplit ▸ hafter
  · intro h
    exact @trimEnd_append [] cs h (by simp)

theorem trim_of_strips {t cs : List Char} (h : Strips t cs) : trim t = cs := by
  obtain ⟨hbefore, hafter, hfirst, hlast⟩ := h
  rw [trim, List.append_assoc]
  cases cs with
  | nil =>
    have hblank := List.forall_mem_append.mpr ⟨hbefore, hafter⟩
    rw [List.nil_append, ← List.append_nil (_ ++ _), dropWhile_isBlank hblank (by simp),
      trimEnd_nil]
  | cons c cs => rw [dropWhile_isBlank hbefore (by simpa using hfirst), trimEnd_append hafter hlast]

theorem strips_trim (t : List Char) : Strips t (trim t) := by
  obtain ⟨after, hsplit, hafter, hlast⟩ := exists_trimEnd (t.dropWhile isBlank)
  rw [← trim] at hsplit hlast
  have ht : t = t.takeWhile isBlank ++ trim t ++ after := by
    rw [List.append_assoc, ← hsplit, List.takeWhile_append_dropWhile]
  have hfirst : ∀ c ∈ (trim t).head?, isBlank c = false := by
    intro c hc
    have hnot := List.head?_dropWhile_not isBlank t
    rw [hsplit, List.head?_append, Option.mem_def.mp hc] at hnot
    exact hnot
  have hbefore : ∀ c ∈ t.takeWhile isBlank, isBlank c = true :=
    List.all_eq_true.mp List.all_takeWhile
  generalize htrim : trim t = cs at ht hfirst hlast
  rw [ht]
  exact .mk hbefore hafter hfirst hlast

/-- More blanks at the ends come off as well. -/
theorem Strips.pad {t cs before after : List Char} (h : Strips t cs)
    (hbefore : ∀ c ∈ before, isBlank c = true) (hafter : ∀ c ∈ after, isBlank c = true) :
    Strips (before ++ t ++ after) cs := by
  obtain ⟨hbefore', hafter', hfirst, hlast⟩ := h
  have hpadded := Strips.mk (List.forall_mem_append.mpr ⟨hbefore, hbefore'⟩)
    (List.forall_mem_append.mpr ⟨hafter', hafter⟩) hfirst hlast
  simpa using hpadded

end PathSieve.Text

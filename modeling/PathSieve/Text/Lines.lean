/-
  Cutting a list at a separator and gluing the pieces back.

  Rule text and path lists are kept as one text whose lines are separated by a
  newline. `pieces` cuts at every separator and always gives at least one piece;
  `glue` puts one separator between neighbours. Gluing the pieces of a list gives
  the list back (`glue_pieces`), and no piece holds the separator
  (`not_mem_of_mem_pieces`). The other direction needs pieces that are free of the
  separator and a list that is not empty, because no line at all and one empty line
  are written the same way (`pieces_glue`).

  Both are right folds, so that they run without deep recursion on long texts.
-/

namespace PathSieve.Text

variable {α : Type}

/-- The pieces with one separator between neighbours. -/
def glue (sep : α) : List (List α) → List α
  | [] => []
  | p :: ps => p ++ ps.flatMap (sep :: ·)

@[simp] theorem glue_nil (sep : α) : glue sep [] = [] := rfl

@[simp] theorem glue_singleton (sep : α) (p : List α) : glue sep [p] = p := by
  simp [glue]

theorem glue_cons_cons (sep : α) (p q : List α) (ps : List (List α)) :
    glue sep (p :: q :: ps) = p ++ sep :: glue sep (q :: ps) := by
  simp [glue]

variable [DecidableEq α]

/-- Put one element in front of the pieces cut so far: a separator opens a new piece. -/
def cutBefore (sep a : α) : List (List α) → List (List α)
  | [] => if a = sep then [[], []] else [[a]]
  | p :: ps => if a = sep then [] :: p :: ps else (a :: p) :: ps

/-- The pieces of a list between its separators, in order. -/
def pieces (sep : α) (as : List α) : List (List α) :=
  as.foldr (cutBefore sep) [[]]

@[simp] theorem pieces_nil (sep : α) : pieces sep [] = [[]] := rfl

@[simp] theorem pieces_cons (sep a : α) (as : List α) :
    pieces sep (a :: as) = cutBefore sep a (pieces sep as) := rfl

theorem pieces_ne_nil (sep : α) (as : List α) : pieces sep as ≠ [] := by
  induction as with
  | nil => simp
  | cons a as ih =>
    rw [pieces_cons]
    cases h : pieces sep as with
    | nil => exact absurd h ih
    | cons p ps => simp only [cutBefore]; split <;> simp

/-- A newline-free beginning only lengthens the first piece. -/
theorem pieces_append_of_not_mem {sep : α} {p : List α} (h : sep ∉ p) (as : List α) :
    pieces sep (p ++ as) =
      (p ++ (pieces sep as).headD []) :: (pieces sep as).tail := by
  induction p with
  | nil =>
    cases hp : pieces sep as with
    | nil => exact absurd hp (pieces_ne_nil sep as)
    | cons q qs => simp [hp]
  | cons a p ih =>
    have ha : a ≠ sep := fun e => h (by simp [e])
    have hp : sep ∉ p := fun e => h (by simp [e])
    simp [ih hp, cutBefore, ha]

theorem pieces_sep (sep : α) (as : List α) : pieces sep (sep :: as) = [] :: pieces sep as := by
  cases h : pieces sep as with
  | nil => exact absurd h (pieces_ne_nil sep as)
  | cons p ps => simp [cutBefore, h]

theorem pieces_of_not_mem {sep : α} {p : List α} (h : sep ∉ p) : pieces sep p = [p] := by
  have := pieces_append_of_not_mem h []
  simpa using this

/-- Cutting at a separator that stands between two lists cuts each of them. -/
theorem pieces_append_sep (sep : α) (as bs : List α) :
    pieces sep (as ++ sep :: bs) = pieces sep as ++ pieces sep bs := by
  induction as with
  | nil => simp [pieces_sep, -pieces_cons]
  | cons a as ih =>
    simp only [List.cons_append, pieces_cons, ih]
    cases h : pieces sep as with
    | nil => exact absurd h (pieces_ne_nil sep as)
    | cons p ps => simp only [cutBefore, List.cons_append]; split <;> rfl

theorem glue_pieces (sep : α) (as : List α) : glue sep (pieces sep as) = as := by
  induction as with
  | nil => rfl
  | cons a as ih =>
    rw [pieces_cons]
    cases h : pieces sep as with
    | nil => exact absurd h (pieces_ne_nil sep as)
    | cons p ps =>
      rw [h] at ih
      by_cases ha : a = sep
      · simp only [cutBefore, ha, if_pos, glue_cons_cons, ih, List.nil_append]
      · simp only [cutBefore, ha, if_neg, not_false_eq_true, glue, List.cons_append] at ih ⊢
        rw [ih]

theorem not_mem_of_mem_pieces {sep : α} {as p : List α} (h : p ∈ pieces sep as) : sep ∉ p := by
  induction as generalizing p with
  | nil => simp_all
  | cons a as ih =>
    rw [pieces_cons] at h
    cases hp : pieces sep as with
    | nil => exact absurd hp (pieces_ne_nil sep as)
    | cons q qs =>
      rw [hp] at h ih
      by_cases ha : a = sep
      · simp only [cutBefore, ha, if_pos, List.mem_cons] at h
        rcases h with rfl | h
        · simp
        · exact ih (by simpa using h)
      · simp only [cutBefore, ha, if_neg, not_false_eq_true, List.mem_cons] at h
        rcases h with rfl | h
        · have := ih (p := q) (by simp)
          simp only [List.mem_cons, not_or]
          exact ⟨fun e => ha e.symm, this⟩
        · exact ih (by simp [h])

/-- Cutting what was glued cuts each of the pieces; one separator-free piece stays whole. -/
theorem pieces_glue_cons (sep : α) (p : List α) (ps : List (List α)) :
    pieces sep (glue sep (p :: ps)) = (p :: ps).flatMap (pieces sep) := by
  induction ps generalizing p with
  | nil => simp
  | cons q ps ih => rw [glue_cons_cons, pieces_append_sep, ih]; simp

theorem pieces_glue {sep : α} {ps : List (List α)} (hne : ps ≠ [])
    (h : ∀ p ∈ ps, sep ∉ p) : pieces sep (glue sep ps) = ps := by
  cases ps with
  | nil => exact absurd rfl hne
  | cons p ps =>
    rw [pieces_glue_cons]
    clear hne
    generalize p :: ps = qs at h
    induction qs with
    | nil => rfl
    | cons q qs ih =>
      rw [List.flatMap_cons, pieces_of_not_mem (h q (by simp)),
        ih (fun r hr => h r (by simp [hr]))]
      rfl

/-- The lines of a text; a text without a newline is one line, the empty text too. -/
def lines (text : String) : List String :=
  (pieces '\n' text.toList).map String.ofList

/-- The lines joined into one text, a newline between neighbours. -/
def unlines (ls : List String) : String :=
  String.ofList (glue '\n' (ls.map String.toList))

theorem unlines_lines (text : String) : unlines (lines text) = text := by
  simp only [unlines, lines, List.map_map]
  have : (String.toList ∘ String.ofList) = id := by
    funext cs; simp
  rw [this, List.map_id, glue_pieces, String.ofList_toList]

end PathSieve.Text

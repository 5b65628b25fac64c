/-
  The levels above a path.

  A head of a path is a beginning that ends with a component (`IsHead`). The parent of a
  path is the path without its last component: the longest head before the last one, or
  the empty path (`IsParent`). What is above a path is its parent, the parent of that, and
  so on, until a path has no component left (`Climb`).

  The lengths that are computed for a path are those of its heads, longest first
  (`mem_headSizes_iff`, `descending_headSizes`), and the heads of a head are the shorter
  heads of the path (`IsHead.isHead_iff`). So the beginnings of these lengths are what is
  above the path (`climb_aboveSizes`).
-/
import PathSieve.Rule.Path
import Mathlib.Tactic.Common

namespace PathSieve.Path

open Glob (slash dot)
open Text (glue pieces)

variable {path head whole parent : List UInt8}

/-- Does a text end with a component: a piece after a slash or in front that is neither empty
    nor a full stop, unless the full stop is in front? -/
inductive EndsWithComponent : List UInt8 → Prop where
  | front {piece : List UInt8} (hfree : slash ∉ piece) (hne : piece ≠ []) :
      EndsWithComponent piece
  | after {front piece : List UInt8} (hfree : slash ∉ piece) (hne : piece ≠ [])
      (hdot : piece ≠ [dot]) : EndsWithComponent (front ++ slash :: piece)

/-- A beginning of a path, up to a slash or the end, that ends with a component. -/
structure IsHead (path head : List UInt8) : Prop where
  component : EndsWithComponent head
  rest : ∃ rest, path = head ++ rest ∧ (rest = [] ∨ rest.head? = some slash)

/-- A path without its last component: a head with exactly one longer head, or what is left of
    a path with exactly one head. -/
structure IsParent (path parent : List UInt8) : Prop where
  head : parent = [] ∨ IsHead path parent
  last : ∃! whole, IsHead path whole ∧ parent.length < whole.length

/-- What is above a path: its parent, the parent of that, and so on. -/
inductive Climb : List UInt8 → List (List UInt8) → Prop where
  | root {path : List UInt8} (h : ∀ parent, ¬ IsParent path parent) : Climb path []
  | up {path parent : List UInt8} {above : List (List UInt8)} (h : IsParent path parent)
      (hs : Climb parent above) : Climb path (parent :: above)

/-! ## Heads -/

theorem EndsWithComponent.length_pos (h : EndsWithComponent head) : 0 < head.length := by
  cases h with
  | front _ hne => exact List.length_pos_iff.mpr hne
  | after => rw [List.length_append, List.length_cons]; omega

namespace IsHead

theorem isPrefix (h : IsHead path head) : head <+: path := by
  obtain ⟨rest, rfl, -⟩ := h.rest
  exact List.prefix_append head rest

theorem take_eq (h : IsHead path head) : path.take head.length = head :=
  (List.prefix_iff_eq_take.mp h.isPrefix).symm

/-- Heads of one length are one head. -/
theorem eq_of_length (h : IsHead path head) (h' : IsHead path whole)
    (hlen : head.length = whole.length) : head = whole := by
  rw [← h.take_eq, hlen, h'.take_eq]

/-- The heads of a head are the heads of the path that are no longer. -/
theorem isHead_iff (h : IsHead path whole) :
    IsHead whole head ↔ IsHead path head ∧ head.length ≤ whole.length := by
  obtain ⟨-, after, rfl, hafter⟩ := h
  constructor
  · rintro ⟨hcomponent, rest, rfl, hrest⟩
    refine ⟨⟨hcomponent, rest ++ after, List.append_assoc .., ?_⟩, by simp⟩
    rcases hrest with rfl | hrest
    · exact hafter
    · exact .inr (by rw [List.head?_append, hrest, Option.some_or])
  · rintro ⟨⟨hcomponent, rest, hsplit, hrest⟩, hle⟩
    obtain ⟨between, rfl⟩ : head <+: whole :=
      List.prefix_of_prefix_length_le ⟨rest, hsplit.symm⟩ ⟨after, rfl⟩ hle
    rw [List.append_assoc, List.append_cancel_left_eq] at hsplit
    subst hsplit
    refine ⟨hcomponent, between, rfl, ?_⟩
    cases between with
    | nil => exact .inl rfl
    | cons b between => exact .inr (hrest.resolve_left (List.cons_ne_nil _ _))

end IsHead

/-! ## Heads by pieces -/

/-- Pieces with a slash after each of them. -/
def frontOf (before : List (List UInt8)) : List UInt8 :=
  before.flatMap (· ++ [slash])

theorem frontOf_cons (piece : List UInt8) (before : List (List UInt8)) :
    frontOf (piece :: before) = piece ++ slash :: frontOf before := by
  simp [frontOf]

theorem glue_append_cons (before : List (List UInt8)) (piece : List UInt8)
    (after : List (List UInt8)) :
    glue slash (before ++ piece :: after) =
      frontOf before ++ piece ++ after.flatMap (slash :: ·) := by
  induction before with
  | nil => rfl
  | cons p before ih =>
    obtain ⟨q, qs, hqs⟩ := List.exists_cons_of_ne_nil (l := before ++ piece :: after) (by simp)
    rw [List.cons_append, hqs, Text.glue_cons_cons, ← hqs, ih, frontOf_cons]
    simp

/-- The pieces of what is in front of a slash, each with a slash, are the front with it. -/
theorem frontOf_pieces (front : List UInt8) : frontOf (pieces slash front) = front ++ [slash] := by
  obtain ⟨before, piece, hlast⟩ :=
    (List.eq_nil_or_concat (pieces slash front)).resolve_left (Text.pieces_ne_nil slash front)
  rw [List.concat_eq_append] at hlast
  have hglue := Text.glue_pieces slash front
  rw [hlast, glue_append_cons] at hglue
  rw [hlast, ← hglue]
  simp [frontOf]

theorem isComponent_true {piece : List UInt8} : isComponent true piece = true ↔ piece ≠ [] := by
  simp [isComponent]

theorem isComponent_false {piece : List UInt8} :
    isComponent false piece = true ↔ piece ≠ [] ∧ piece ≠ [dot] := by
  simp [isComponent]

theorem IsHead.exists_pieces (h : IsHead path head) :
    ∃ before piece after, pieces slash path = before ++ piece :: after ∧
      isComponent before.isEmpty piece = true ∧ head = frontOf before ++ piece := by
  obtain ⟨hcomponent, rest, rfl, hrest⟩ := h
  have hback : ∀ piece, slash ∉ piece →
      ∃ after, pieces slash (piece ++ rest) = piece :: after := by
    intro piece hfree
    rcases hrest with rfl | hrest
    · exact ⟨[], by rw [List.append_nil, Text.pieces_of_not_mem hfree]⟩
    · obtain ⟨rest, rfl⟩ := List.head?_eq_some_iff.mp hrest
      exact ⟨_, by rw [Text.pieces_append_sep, Text.pieces_of_not_mem hfree]; rfl⟩
  cases hcomponent with
  | front hfree hne =>
    obtain ⟨after, hafter⟩ := hback _ hfree
    exact ⟨[], head, after, hafter, isComponent_true.mpr hne, rfl⟩
  | @after front piece hfree hne hdot =>
    obtain ⟨after, hafter⟩ := hback _ hfree
    refine ⟨pieces slash front, piece, after, ?_, ?_, ?_⟩
    · rw [List.append_assoc, List.cons_append, Text.pieces_append_sep, hafter]
    · rw [List.isEmpty_eq_false_iff.mpr (Text.pieces_ne_nil slash front)]
      exact isComponent_false.mpr ⟨hne, hdot⟩
    · rw [frontOf_pieces]
      simp

theorem endsWithComponent_of_isComponent {before : List (List UInt8)} {piece : List UInt8}
    (hfree : slash ∉ piece) (h : isComponent before.isEmpty piece = true) :
    EndsWithComponent (frontOf before ++ piece) := by
  rcases List.eq_nil_or_concat before with rfl | ⟨before, p, rfl⟩
  · exact .front hfree (isComponent_true.mp h)
  · rw [List.concat_eq_append] at h ⊢
    rw [show (before ++ [p]).isEmpty = false by simp] at h
    obtain ⟨hne, hdot⟩ := isComponent_false.mp h
    rw [show frontOf (before ++ [p]) ++ piece = (frontOf before ++ p) ++ slash :: piece by
      simp [frontOf]]
    exact .after hfree hne hdot

/-- The pieces up to a component make a head, and nothing else does. -/
theorem isHead_iff_pieces :
    IsHead path head ↔ ∃ before piece after, pieces slash path = before ++ piece :: after ∧
      isComponent before.isEmpty piece = true ∧ head = frontOf before ++ piece := by
  refine ⟨IsHead.exists_pieces, ?_⟩
  rintro ⟨before, piece, after, hpieces, hcomponent, rfl⟩
  have hmem : piece ∈ pieces slash path := by simp [hpieces]
  have hpath := Text.glue_pieces slash path
  rw [hpieces, glue_append_cons] at hpath
  refine ⟨endsWithComponent_of_isComponent (Text.not_mem_of_mem_pieces hmem) hcomponent,
    _, hpath.symm, ?_⟩
  cases after with
  | nil => exact .inl rfl
  | cons p after => exact .inr rfl

/-! ## The lengths of heads -/

theorem exists_split_cons {α : Type} {a : α} {as : List α} {Q : List α → α → List α → Prop} :
    (∃ before b after, a :: as = before ++ b :: after ∧ Q before b after) ↔
      Q [] a as ∨ ∃ before b after, as = before ++ b :: after ∧ Q (a :: before) b after := by
  constructor
  · rintro ⟨before, b, after, hsplit, hq⟩
    cases before with
    | nil =>
      obtain ⟨rfl, rfl⟩ := List.cons.inj hsplit
      exact .inl hq
    | cons c before =>
      obtain ⟨rfl, rfl⟩ := List.cons.inj hsplit
      exact .inr ⟨before, b, after, rfl, hq⟩
  · rintro (hq | ⟨before, b, after, rfl, hq⟩)
    · exact ⟨[], a, as, rfl, hq⟩
    · exact ⟨a :: before, b, after, rfl, hq⟩

theorem mem_headSizesFrom_iff {first : Bool} {start n : Nat} {found : List Nat}
    {ps : List (List UInt8)} :
    n ∈ headSizesFrom first start found ps ↔ n ∈ found ∨
      ∃ before piece after, ps = before ++ piece :: after ∧
        isComponent (first && before.isEmpty) piece = true ∧
        n = start + (frontOf before ++ piece).length := by
  induction ps generalizing first start found with
  | nil => simp [headSizesFrom]
  | cons p ps ih =>
    have hhere : n ∈ (if isComponent first p then (start + p.length) :: found else found) ↔
        n ∈ found ∨ isComponent first p = true ∧ n = start + p.length := by
      split
      · next h => rw [List.mem_cons, or_comm, and_iff_right h]
      · next h => rw [iff_false_intro h, false_and, or_false]
    have hlater : ∀ (before : List (List UInt8)) (piece : List UInt8),
        n = start + p.length + 1 + (frontOf before ++ piece).length ↔
          n = start + (frontOf (p :: before) ++ piece).length := by
      intro before piece
      simp only [frontOf_cons, List.length_append, List.length_cons]
      omega
    rw [exists_split_cons, headSizesFrom, ih, hhere, or_assoc]
    simp only [Bool.false_and, List.isEmpty_nil, List.isEmpty_cons, Bool.and_true, Bool.and_false,
      hlater]
    rfl

/-- The lengths of the heads of a path. -/
theorem mem_headSizes_iff {n : Nat} :
    n ∈ headSizes path ↔ ∃ head, IsHead path head ∧ n = head.length := by
  rw [headSizes, mem_headSizesFrom_iff]
  simp only [List.not_mem_nil, false_or, Bool.true_and, Nat.zero_add, isHead_iff_pieces]
  constructor
  · rintro ⟨before, piece, after, hpieces, hcomponent, rfl⟩
    exact ⟨_, ⟨before, piece, after, hpieces, hcomponent, rfl⟩, rfl⟩
  · rintro ⟨_, ⟨before, piece, after, hpieces, hcomponent, rfl⟩, rfl⟩
    exact ⟨before, piece, after, hpieces, hcomponent, rfl⟩

theorem descending_headSizesFrom {first : Bool} {start : Nat} {found : List Nat}
    {ps : List (List UInt8)} (hdesc : found.Pairwise (· > ·)) (hlt : ∀ n ∈ found, n < start) :
    (headSizesFrom first start found ps).Pairwise (· > ·) := by
  induction ps generalizing first start found with
  | nil => exact hdesc
  | cons p ps ih =>
    have hall : ∀ n ∈ found, n < start + p.length := fun n hn =>
      Nat.lt_of_lt_of_le (hlt n hn) (Nat.le_add_right ..)
    rw [headSizesFrom]
    split
    · refine ih (List.pairwise_cons.mpr ⟨hall, hdesc⟩) ?_
      exact List.forall_mem_cons.mpr ⟨Nat.lt_succ_self _, fun n hn => Nat.lt_succ_of_lt (hall n hn)⟩
    · exact ih hdesc fun n hn => Nat.lt_succ_of_lt (hall n hn)

theorem descending_headSizes (path : List UInt8) : (headSizes path).Pairwise (· > ·) :=
  descending_headSizesFrom .nil (List.forall_mem_nil _)

/-! ## Parents -/

namespace IsParent

variable {parent' : List UInt8}

theorem take_eq (h : IsParent path parent) : path.take parent.length = parent := by
  rcases h.head with rfl | hhead
  · rfl
  · exact hhead.take_eq

theorem length_le (h : IsParent path parent) (h' : IsParent path parent') :
    parent'.length ≤ parent.length := by
  by_contra hlt
  rw [Nat.not_le] at hlt
  have hhead : IsHead path parent' := by
    refine h'.head.resolve_left ?_
    rintro rfl
    exact Nat.not_lt_zero _ hlt
  -- the longer one would be the last head, and have a longer one still
  obtain ⟨last, -, honly⟩ := h.last
  obtain ⟨longer, ⟨hlonger, hlt'⟩, -⟩ := h'.last
  have heq := honly longer ⟨hlonger, Nat.lt_trans hlt hlt'⟩
  rw [heq, honly parent' ⟨hhead, hlt⟩] at hlt'
  exact Nat.lt_irrefl _ hlt'

/-- There is one parent at most. -/
theorem unique (h : IsParent path parent) (h' : IsParent path parent') : parent = parent' := by
  rw [← h.take_eq, Nat.le_antisymm (h'.length_le h) (h.length_le h'), h'.take_eq]

end IsParent

/-- There is one way up. -/
theorem Climb.unique {above above' : List (List UInt8)} (h : Climb path above)
    (h' : Climb path above') : above = above' := by
  induction h generalizing above' with
  | root hnone =>
    cases h' with
    | root => rfl
    | up hparent => exact absurd hparent (hnone _)
  | up hparent _ ih =>
    cases h' with
    | root hnone => exact absurd hparent (hnone _)
    | up hparent' hs' =>
      obtain rfl := hparent.unique hparent'
      rw [ih hs']

/-! ## The way up -/

/-- The lengths of the heads of a path, longest first. -/
structure Measures (path : List UInt8) (sizes : List Nat) : Prop where
  mem_iff : ∀ n, n ∈ sizes ↔ ∃ head, IsHead path head ∧ n = head.length
  descending : sizes.Pairwise (· > ·)

theorem measures_headSizes (path : List UInt8) : Measures path (headSizes path) :=
  ⟨fun _ => mem_headSizes_iff, descending_headSizes path⟩

namespace Measures

variable {n m : Nat} {sizes : List Nat}

theorem isHead_take (h : Measures path sizes) (hn : n ∈ sizes) :
    IsHead path (path.take n) ∧ (path.take n).length = n := by
  obtain ⟨head, hhead, rfl⟩ := (h.mem_iff n).mp hn
  rw [hhead.take_eq]
  exact ⟨hhead, rfl⟩

/-- The longest head is the only one that is longer than all the others. -/
theorem eq_take (h : Measures path (n :: sizes)) {head : List UInt8} (hhead : IsHead path head)
    (hlong : ∀ k ∈ sizes, k < head.length) : head = path.take n := by
  obtain ⟨hlast, hlen⟩ := h.isHead_take List.mem_cons_self
  have hmem := (h.mem_iff head.length).mpr ⟨head, hhead, rfl⟩
  have heq := (List.mem_cons.mp hmem).resolve_right fun hk => Nat.lt_irrefl _ (hlong _ hk)
  exact hhead.eq_of_length hlast (heq.trans hlen.symm)

theorem isParent_nil (h : Measures path [n]) : IsParent path [] := by
  have hlast := (h.isHead_take List.mem_cons_self).1
  refine ⟨.inl rfl, _, ⟨hlast, hlast.component.length_pos⟩, fun head hhead => ?_⟩
  exact h.eq_take hhead.1 (List.forall_mem_nil _)

theorem isParent_take (h : Measures path (n :: m :: sizes)) : IsParent path (path.take m) := by
  obtain ⟨hgt, hdesc⟩ := List.pairwise_cons.mp h.descending
  obtain ⟨hlast, hlen⟩ := h.isHead_take List.mem_cons_self
  obtain ⟨hparent, hlen'⟩ := h.isHead_take (List.mem_cons_of_mem n List.mem_cons_self)
  refine ⟨.inr hparent, _, ⟨hlast, ?_⟩, fun head ⟨hhead, hlt⟩ => h.eq_take hhead ?_⟩
  · rw [hlen, hlen']
    exact hgt m List.mem_cons_self
  · rw [hlen'] at hlt
    exact List.forall_mem_cons.mpr
      ⟨hlt, fun k hk => Nat.lt_trans ((List.pairwise_cons.mp hdesc).1 k hk) hlt⟩

/-- The heads of the second longest head are all heads but the longest. -/
theorem take (h : Measures path (n :: m :: sizes)) : Measures (path.take m) (m :: sizes) := by
  obtain ⟨hgt, hdesc⟩ := List.pairwise_cons.mp h.descending
  obtain ⟨hparent, hlen⟩ := h.isHead_take (List.mem_cons_of_mem n List.mem_cons_self)
  refine ⟨fun k => ?_, hdesc⟩
  constructor
  · intro hk
    obtain ⟨head, hhead, rfl⟩ := (h.mem_iff k).mp (List.mem_cons_of_mem n hk)
    refine ⟨head, hparent.isHead_iff.mpr ⟨hhead, ?_⟩, rfl⟩
    rw [hlen]
    rcases List.mem_cons.mp hk with heq | hk
    · exact Nat.le_of_eq heq
    · exact Nat.le_of_lt ((List.pairwise_cons.mp hdesc).1 _ hk)
  · rintro ⟨head, hhead, rfl⟩
    obtain ⟨hhead, hle⟩ := hparent.isHead_iff.mp hhead
    rw [hlen] at hle
    refine (List.mem_cons.mp ((h.mem_iff _).mpr ⟨head, hhead, rfl⟩)).resolve_left ?_
    exact Nat.ne_of_lt (Nat.lt_of_le_of_lt hle (hgt m List.mem_cons_self))

/-- All lengths but the first lead up, and nothing is left at last. -/
theorem climb (h : Measures path (n :: sizes)) : Climb path ((sizes ++ [0]).map path.take) := by
  induction sizes generalizing path n with
  | nil =>
    refine .up h.isParent_nil (.root fun parent hparent => ?_)
    obtain ⟨whole, ⟨hwhole, hlt⟩, -⟩ := hparent.last
    have hprefix : whole <+: [] := hwhole.isPrefix
    rw [List.prefix_nil.mp hprefix] at hlt
    exact Nat.not_lt_zero _ hlt
  | cons m sizes ih =>
    have hle : ∀ k ∈ sizes ++ [0], k ≤ m := by
      have hdesc := (List.pairwise_cons.mp (List.pairwise_cons.mp h.descending).2).1
      refine List.forall_mem_append.mpr ⟨fun k hk => Nat.le_of_lt (hdesc k hk), ?_⟩
      exact List.forall_mem_singleton.mpr (Nat.zero_le m)
    have hmap : (sizes ++ [0]).map (path.take m).take = (sizes ++ [0]).map path.take :=
      List.map_congr_left fun k hk => by rw [List.take_take, Nat.min_eq_left (hle k hk)]
    exact .up h.isParent_take (hmap ▸ ih h.take)

end Measures

/-- What is above a path is the path up to the lengths that are computed for it. -/
theorem climb_aboveSizes (path : List UInt8) : Climb path ((aboveSizes path).map path.take) := by
  have h := measures_headSizes path
  unfold aboveSizes
  split
  · next hnone =>
    refine .root fun parent hparent => ?_
    obtain ⟨whole, ⟨hwhole, -⟩, -⟩ := hparent.last
    have hmem := (h.mem_iff _).mpr ⟨whole, hwhole, rfl⟩
    rw [hnone] at hmem
    cases hmem
  · next hsizes =>
    rw [hsizes] at h
    exact h.climb

/-- The lengths that are computed for a path are lengths of beginnings. -/
theorem le_length_of_mem_aboveSizes {n : Nat} (h : n ∈ aboveSizes path) : n ≤ path.length := by
  have hmeasures := measures_headSizes path
  unfold aboveSizes at h
  split at h
  · cases h
  · next hsizes =>
    rcases List.mem_append.mp h with h | h
    · have hmem : n ∈ headSizes path := hsizes ▸ List.mem_cons_of_mem _ h
      obtain ⟨head, hhead, rfl⟩ := (hmeasures.mem_iff n).mp hmem
      exact hhead.isPrefix.length_le
    · rw [List.mem_singleton.mp h]
      exact Nat.zero_le _

end PathSieve.Path

/-
  How many bytes lines take up.

  Each line takes up its own bytes and one byte for a newline (`weight`); the text of some
  lines has one newline less than lines (`length_encode_unlines`). So the text of fewer
  lines is never longer, and cutting a text into its lines changes no weight.
-/
import PathSieve.Text.Lines
import PathSieve.Text.Utf8

namespace PathSieve.Text

namespace Utf8

@[simp] theorem encode_empty : encode "" = [] := rfl

theorem encode_ofList_append (as bs : List Char) :
    encode (String.ofList (as ++ bs)) = encode (String.ofList as) ++ encode (String.ofList bs) := by
  simp [encode]

theorem encode_ofList_newline_cons (as : List Char) :
    encode (String.ofList ('\n' :: as)) = 10 :: encode (String.ofList as) := by
  have h := encode_ofList_append ['\n'] as
  rwa [show encode (String.ofList ['\n']) = [10] by decide] at h

theorem encode_ofList_singleton (c : Char) :
    encode (String.ofList [c]) = String.utf8EncodeChar c := by
  simp [encode, List.utf8Encode_singleton]

/-- A text whose bytes end with an ASCII byte is still a text without it: no other
    character has such a byte in it. -/
theorem dropLast_encode {text : String} {b : UInt8} (hb : b.IsUTF8FirstByte)
    (hlast : (encode text).getLast? = some b) :
    ∃ front : String, (encode text).dropLast = encode front := by
  rcases List.eq_nil_or_concat text.toList with hnil | ⟨cs, c, hcs⟩
  · rw [String.toList_eq_nil_iff.mp hnil] at hlast
    simp at hlast
  rw [List.concat_eq_append] at hcs
  have hne : String.utf8EncodeChar c ≠ [] := String.utf8EncodeChar_ne_nil
  have htext : encode text = encode (String.ofList cs) ++ String.utf8EncodeChar c := by
    rw [← String.ofList_toList (s := text), hcs, encode_ofList_append, encode_ofList_singleton]
  rw [htext, List.getLast?_append, List.getLast?_eq_some_getLast hne, Option.some_or,
    Option.some.injEq, List.getLast_eq_getElem] at hlast
  have hfirst := UInt8.isUTF8FirstByte_getElem_utf8EncodeChar.mp (hlast ▸ hb)
  refine ⟨String.ofList cs, ?_⟩
  rw [htext, List.dropLast_append_of_ne_nil hne]
  have hnil : (String.utf8EncodeChar c).dropLast = [] := by
    rw [← List.length_eq_zero_iff, List.length_dropLast]
    exact hfirst
  rw [hnil, List.append_nil]

/-- Only the empty text has no bytes. -/
theorem encode_eq_nil_iff {text : String} : encode text = [] ↔ text = "" := by
  constructor
  · intro h
    have hd := decode?_encode text
    rw [h, ← encode_empty, decode?_encode] at hd
    exact (Option.some.inj hd).symm
  · intro heq
    subst heq
    rfl

end Utf8

open Utf8 (encode)

/-- The bytes that lines take up, a newline for each of them included. -/
def weight : List String → Nat
  | [] => 0
  | l :: ls => (encode l).length + 1 + weight ls

@[simp] theorem weight_nil : weight [] = 0 := rfl

@[simp] theorem weight_cons (l : String) (ls : List String) :
    weight (l :: ls) = (encode l).length + 1 + weight ls := rfl

theorem weight_append (ls ms : List String) : weight (ls ++ ms) = weight ls + weight ms := by
  induction ls with
  | nil => exact (Nat.zero_add _).symm
  | cons l ls ih =>
    rw [List.cons_append, weight_cons, weight_cons, ih]
    omega

theorem length_encode_unlines_cons (l : String) (ls : List String) :
    (encode (unlines (l :: ls))).length + 1 = weight (l :: ls) := by
  induction ls generalizing l with
  | nil => simp [unlines]
  | cons m ls ih =>
    have hm := ih m
    unfold unlines at hm ⊢
    rw [List.map_cons, List.map_cons, glue_cons_cons, Utf8.encode_ofList_append,
      Utf8.encode_ofList_newline_cons, String.ofList_toList, weight_cons, ← hm]
    simp only [List.map_cons, List.length_append, List.length_cons]
    omega

/-- A text is as long as its lines and the newlines between them. -/
theorem length_encode_unlines {ls : List String} (hne : ls ≠ []) :
    (encode (unlines ls)).length + 1 = weight ls := by
  cases ls with
  | nil => exact absurd rfl hne
  | cons l ls => exact length_encode_unlines_cons l ls

theorem weight_lines (text : String) : weight (lines text) = (encode text).length + 1 := by
  have hne : lines text ≠ [] := by
    simp [lines, pieces_ne_nil]
  rw [← length_encode_unlines hne, unlines_lines]

theorem weight_le_of_sublist {ls ms : List String} (h : ls.Sublist ms) :
    weight ls ≤ weight ms := by
  induction h with
  | slnil => exact Nat.le_refl _
  | cons m _ ih => rw [weight_cons]; omega
  | cons_cons m _ ih => rw [weight_cons, weight_cons]; omega

theorem length_le_weight (ls : List String) : ls.length ≤ weight ls := by
  induction ls with
  | nil => exact Nat.le_refl _
  | cons l ls ih => rw [weight_cons, List.length_cons]; omega

theorem length_lt_weight_of_mem {l : String} {ls : List String} (h : l ∈ ls) :
    (encode l).length < weight ls := by
  have := weight_le_of_sublist (List.singleton_sublist.mpr h)
  simp only [weight_cons, weight_nil] at this
  omega

/-- The text of fewer lines is no longer. -/
theorem length_encode_unlines_mono {ls ms : List String} (hm : ms ≠ [])
    (hw : weight ls ≤ weight ms) :
    (encode (unlines ls)).length ≤ (encode (unlines ms)).length := by
  have h := length_encode_unlines hm
  cases ls with
  | nil => exact Nat.zero_le _
  | cons l ls =>
    have := length_encode_unlines_cons l ls
    omega

theorem length_encode_unlines_of_sublist {ls ms : List String} (h : ls.Sublist ms) :
    (encode (unlines ls)).length ≤ (encode (unlines ms)).length := by
  by_cases hm : ms = []
  · subst hm
    obtain rfl := List.sublist_nil.mp h
    exact Nat.le_refl _
  · exact length_encode_unlines_mono hm (weight_le_of_sublist h)

/-! ## Lines of joined lines -/

/-- Joining texts and cutting what comes out gives the lines of each. -/
theorem lines_unlines {ls : List String} (hne : ls ≠ []) :
    lines (unlines ls) = ls.flatMap lines := by
  cases ls with
  | nil => exact absurd rfl hne
  | cons l ls =>
    unfold lines unlines
    rw [String.toList_ofList, List.map_cons, pieces_glue_cons, ← List.map_cons, List.map_flatMap,
      List.flatMap_map]

theorem lines_eq_singleton {l : String} (h : '\n' ∉ l.toList) : lines l = [l] := by
  rw [lines, pieces_of_not_mem h, List.map_singleton, String.ofList_toList]

theorem not_mem_of_mem_lines {l text : String} (h : l ∈ lines text) : '\n' ∉ l.toList := by
  obtain ⟨p, hp, rfl⟩ := List.mem_map.mp h
  rw [String.toList_ofList]
  exact not_mem_of_mem_pieces hp

/-- Lines that hold no newline are their own lines. -/
theorem flatMap_lines_eq_self {ls : List String} (h : ∀ l ∈ ls, '\n' ∉ l.toList) :
    ls.flatMap lines = ls := by
  induction ls with
  | nil => rfl
  | cons l ls ih =>
    rw [List.flatMap_cons, lines_eq_singleton (h l (by simp)), ih fun m hm => h m (by simp [hm])]
    rfl

theorem weight_flatMap_lines (ls : List String) : weight (ls.flatMap lines) = weight ls := by
  induction ls with
  | nil => rfl
  | cons l ls ih => rw [List.flatMap_cons, weight_append, weight_lines, ih, weight_cons]

end PathSieve.Text

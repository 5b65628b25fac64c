/-
  The lines of a text, in characters and in bytes.

  A list is cut at a separator when the pieces hold no separator and separators between
  them give the list back (`Cuts`). There is one way to cut a list, and it is the one that
  is computed (`cuts_iff`). The byte of a newline is no part of any other character, so a
  text can be cut into lines before or after it is turned into bytes (`cuts_encode`).
-/
import PathSieve.Proofs.Text.Weight

namespace PathSieve.Text

variable {α : Type} [DecidableEq α] {sep : α} {as : List α} {ps : List (List α)}

/-- The pieces of a list between its separators. -/
structure Cuts (sep : α) (as : List α) (ps : List (List α)) : Prop where
  ne_nil : ps ≠ []
  free : ∀ p ∈ ps, sep ∉ p
  glue_eq : glue sep ps = as

theorem cuts_pieces (sep : α) (as : List α) : Cuts sep as (pieces sep as) :=
  ⟨pieces_ne_nil sep as, fun _ => not_mem_of_mem_pieces, glue_pieces sep as⟩

/-- A list can be cut in one way. -/
theorem cuts_iff : Cuts sep as ps ↔ pieces sep as = ps := by
  constructor
  · rintro ⟨hne, hfree, rfl⟩
    exact pieces_glue hne hfree
  · rintro rfl
    exact cuts_pieces sep as

theorem Cuts.pieces_eq (h : Cuts sep as ps) : pieces sep as = ps :=
  cuts_iff.mp h

/-- A piece is cut into nothing but itself. -/
theorem cuts_singleton {p : List α} (h : sep ∉ p) : Cuts sep p [p] :=
  cuts_iff.mpr (pieces_of_not_mem h)

/-! ## Lines in bytes -/

namespace Utf8

/-- A byte of ASCII stands for nothing but its character. -/
theorem toNat_of_mem_utf8EncodeChar {c : Char} {b : UInt8} (hb : b.toNat < 0x80)
    (h : b ∈ String.utf8EncodeChar c) : c.toNat = b.toNat := by
  -- the bytes of a longer character are all 0x80 at least
  have hlong : ∀ n : Nat, b = UInt8.ofNat n → 0x80 ≤ n % 0x100 → False := by
    intro n heq hn
    rw [heq, UInt8.toNat_ofNat'] at hb
    omega
  have hc : c.toNat = c.val.toNat := rfl
  rw [String.utf8EncodeChar] at h
  split at h
  · rw [List.mem_singleton.mp h, UInt8.toNat_ofNat']
    omega
  exfalso
  split at h
  · simp only [List.mem_cons, List.not_mem_nil, or_false] at h
    rcases h with h | h <;> exact hlong _ h (by omega)
  split at h
  · simp only [List.mem_cons, List.not_mem_nil, or_false] at h
    rcases h with h | h | h <;> exact hlong _ h (by omega)
  · simp only [List.mem_cons, List.not_mem_nil, or_false] at h
    rcases h with h | h | h | h <;> exact hlong _ h (by omega)

theorem not_mem_encode_ofList {cs : List Char} (h : '\n' ∉ cs) :
    10 ∉ encode (String.ofList cs) := by
  induction cs with
  | nil => simp
  | cons c cs ih =>
    rw [List.mem_cons, not_or] at h
    rw [← List.singleton_append, encode_ofList_append, encode_ofList_singleton, List.mem_append,
      not_or]
    refine ⟨fun hmem => h.1 ?_, ih h.2⟩
    exact (Char.toNat_inj.mp (toNat_of_mem_utf8EncodeChar (by decide) hmem)).symm

theorem encode_ofList_glue (ps : List (List Char)) :
    encode (String.ofList (glue '\n' ps)) =
      glue 10 (ps.map fun p => encode (String.ofList p)) := by
  induction ps with
  | nil => rfl
  | cons p ps ih =>
    cases ps with
    | nil => simp
    | cons q ps =>
      rw [List.map_cons, List.map_cons, glue_cons_cons, glue_cons_cons, encode_ofList_append,
        encode_ofList_newline_cons, ih, List.map_cons]

end Utf8

open Utf8 (encode)

/-- The lines of a text in bytes are the bytes of its lines. -/
theorem cuts_encode (text : String) : Cuts 10 (encode text) ((lines text).map encode) := by
  obtain ⟨hne, hfree, hglue⟩ := cuts_pieces '\n' text.toList
  refine ⟨?_, fun p hp => ?_, ?_⟩
  · simp [lines, hne]
  · simp only [lines, List.map_map, List.mem_map, Function.comp_apply] at hp
    obtain ⟨cs, hcs, rfl⟩ := hp
    exact Utf8.not_mem_encode_ofList (hfree cs hcs)
  · have hbytes := Utf8.encode_ofList_glue (pieces '\n' text.toList)
    rw [hglue, String.ofList_toList] at hbytes
    rw [lines, List.map_map, hbytes]
    rfl

end PathSieve.Text

/-
  Moving places over a language.

  A list of places is moved over a language if the places after it are those that some
  place before it can reach over a word of the language that stands in the path there, in
  ascending order (`Moves`). Moving over one language and then over another is moving over
  the product (`Moves.mul`), the union of two moves is a move over the sum (`Moves.add`),
  and the two elementary moves are one byte that passes a test (`moves_advance`) and any
  stretch of such bytes (`moves_spread`).

  The order matters: to spread, a place is passed over when an earlier one has been spread
  across it, and this is right only if no place comes after a greater one.
-/
import Mathlib.Computability.Language
import PathSieve.Glob.Match

namespace PathSieve.Glob

variable {path : Array UInt8} {p : UInt8 → Bool} {ps qs rs : Places} {l m : Language UInt8}

namespace Places

/-! ## The union of places -/

theorem mem_unionFrom (rev ps qs : Places) (n : Nat) :
    n ∈ unionFrom rev ps qs ↔ n ∈ rev ∨ n ∈ ps ∨ n ∈ qs := by
  fun_induction unionFrom rev ps qs <;> grind

theorem mem_union {n : Nat} : n ∈ ps.union qs ↔ n ∈ ps ∨ n ∈ qs := by
  simp [union, mem_unionFrom]

/-- What has been merged stays in front of both lists. -/
theorem ascending_unionFrom (rev ps qs : Places) (hps : (rev.reverse ++ ps).Pairwise (· < ·))
    (hqs : (rev.reverse ++ qs).Pairwise (· < ·)) : (unionFrom rev ps qs).Pairwise (· < ·) := by
  fun_induction unionFrom rev ps qs with
  | case1 => exact hqs
  | case2 => exact hps
  | case3 rev a as b bs hlt ih =>
    refine ih (by simpa using hps) ?_
    simp only [List.pairwise_append, List.pairwise_cons, List.reverse_cons] at hps hqs ⊢
    grind
  | case4 rev a as b bs hle hlt ih =>
    refine ih ?_ (by simpa using hqs)
    simp only [List.pairwise_append, List.pairwise_cons, List.reverse_cons] at hps hqs ⊢
    grind
  | case5 rev a as b bs hle hge ih =>
    obtain rfl : a = b := by omega
    exact ih (by simpa using hps) (by simpa using hqs)

theorem ascending_union (hps : ps.Pairwise (· < ·)) (hqs : qs.Pairwise (· < ·)) :
    (ps.union qs).Pairwise (· < ·) :=
  ascending_unionFrom [] ps qs hps hqs

/-! ## One byte -/

theorem mem_advance {n : Nat} :
    n ∈ ps.advance p path ↔ ∃ i ∈ ps, ∃ b, p b = true ∧ path[i]? = some b ∧ n = i + 1 := by
  rw [advance, List.mem_filterMap]
  refine exists_congr fun i => and_congr_right fun _ => ?_
  cases path[i]? with
  | none => simp
  | some b =>
    by_cases hb : p b = true
    · simp [hb, @eq_comm _ (i + 1)]
    · simp [hb]

theorem ascending_advance (hasc : ps.Pairwise (· < ·)) :
    (ps.advance p path).Pairwise (· < ·) := by
  have hone : ∀ i n, n ∈ advance p path [i] → n = i + 1 := by
    intro i n hn
    obtain ⟨_, hi, _, _, _, rfl⟩ := mem_advance.mp hn
    rw [List.mem_singleton.mp hi]
  refine hasc.filterMap _ fun i j hij n hn k hk => ?_
  rw [hone i n (List.mem_filterMap.mpr ⟨i, List.mem_singleton_self i, hn⟩),
    hone j k (List.mem_filterMap.mpr ⟨j, List.mem_singleton_self j, hk⟩)]
  exact Nat.succ_lt_succ hij

/-! ## Stretches of bytes -/

theorem le_furthest (p : UInt8 → Bool) (path : Array UInt8) (i : Nat) :
    i ≤ furthest p path i := by
  fun_induction furthest p path i with
  | case1 i _ _ ih => omega
  | case2 => exact Nat.le_refl _
  | case3 => exact Nat.le_refl _

/-- From anywhere in a stretch it goes as far as from its beginning. -/
theorem furthest_eq {i j : Nat} (hle : i ≤ j) (hj : j ≤ furthest p path i) :
    furthest p path j = furthest p path i := by
  fun_induction furthest p path i with
  | case1 i hi hp ih =>
    rcases Nat.eq_or_lt_of_le hle with rfl | hlt
    · rw [furthest, dif_pos hi, if_pos hp]
    · exact ih hlt hj
  | case2 i hi hp =>
    obtain rfl := Nat.le_antisymm hle hj
    rw [furthest, dif_pos hi, if_neg hp]
  | case3 i hi =>
    obtain rfl := Nat.le_antisymm hle hj
    rw [furthest, dif_neg hi]

/-- A word that stands in a path is the byte there and a word that stands after it. -/
theorem cons_prefix_drop_iff {b : UInt8} {w : List UInt8} {i : Nat} :
    b :: w <+: path.toList.drop i ↔ path[i]? = some b ∧ w <+: path.toList.drop (i + 1) := by
  rcases Nat.lt_or_ge i path.size with hi | hi
  · rw [List.drop_eq_getElem_cons (by simpa using hi), List.cons_prefix_cons,
      Array.getElem?_eq_getElem hi, Option.some.injEq, eq_comm]
    rfl
  · rw [List.drop_eq_nil_of_le (by simpa using hi), List.prefix_nil,
      Array.getElem?_eq_none hi]
    simp

/-- All stretches from a place are beginnings of the furthest one. -/
theorem exists_stretch_iff {i n : Nat} :
    (∃ w, (∀ b ∈ w, p b = true) ∧ w <+: path.toList.drop i ∧ n = i + w.length) ↔
      i ≤ n ∧ n ≤ furthest p path i := by
  constructor
  · rintro ⟨w, hw, hpre, rfl⟩
    refine ⟨Nat.le_add_right .., ?_⟩
    induction w generalizing i with
    | nil => exact le_furthest p path i
    | cons b w ih =>
      obtain ⟨hb, hrest⟩ := cons_prefix_drop_iff.mp hpre
      obtain ⟨hpb, htail⟩ := List.forall_mem_cons.mp hw
      obtain ⟨hi, rfl⟩ := Array.getElem?_eq_some_iff.mp hb
      have := ih htail hrest
      rw [furthest, dif_pos hi, if_pos hpb, List.length_cons]
      omega
  · rintro ⟨hle, hn⟩
    fun_induction furthest p path i with
    | case1 i hi hp ih =>
      rcases Nat.eq_or_lt_of_le hle with rfl | hlt
      · exact ⟨[], by simp, List.nil_prefix, rfl⟩
      · obtain ⟨w, hw, hpre, rfl⟩ := ih hlt hn
        refine ⟨path[i] :: w, List.forall_mem_cons.mpr ⟨hp, hw⟩, ?_, ?_⟩
        · exact cons_prefix_drop_iff.mpr ⟨Array.getElem?_eq_getElem hi, hpre⟩
        · rw [List.length_cons]
          omega
    | case2 i => exact ⟨[], by simp, List.nil_prefix, Nat.le_antisymm hn hle⟩
    | case3 i => exact ⟨[], by simp, List.nil_prefix, Nat.le_antisymm hn hle⟩

/-! ## Spreading -/

/-- How far spreading has come after some places: what it has found so far, in reverse, and
    the first place that may still be missing. -/
structure Spread (p : UInt8 → Bool) (path : Array UInt8) (ps : Places) (s : Places × Nat) :
    Prop where
  ascending : s.1.reverse.Pairwise (· < ·)
  lt_next : ∀ n ∈ s.1, n < s.2
  mem_iff : ∀ n, n ∈ s.1 ↔ ∃ i ∈ ps, i ≤ n ∧ n ≤ furthest p path i
  next_eq : s.2 = 0 ∨ ∃ i ∈ ps, s.2 = furthest p path i + 1

theorem spread_nil : Spread p path [] ([], 0) :=
  ⟨.nil, by simp, by simp, .inl rfl⟩

/-- A place that an earlier one has been spread across adds nothing. -/
theorem Spread.skip {s : Places × Nat} (h : Spread p path ps s) {i : Nat}
    (hlast : ∀ j ∈ ps, j < i) (hlt : i < s.2) : Spread p path (ps ++ [i]) s := by
  obtain ⟨j, hj, hnext⟩ := h.next_eq.resolve_left (Nat.ne_of_gt (Nat.zero_lt_of_lt hlt))
  have hji := hlast j hj
  have hfar : furthest p path i = furthest p path j :=
    furthest_eq (Nat.le_of_lt hji) (by omega)
  refine ⟨h.ascending, h.lt_next, fun n => ?_, .inr ⟨j, List.mem_append_left _ hj, hnext⟩⟩
  rw [h.mem_iff]
  constructor
  · rintro ⟨k, hk, hn⟩
    exact ⟨k, List.mem_append_left _ hk, hn⟩
  · rintro ⟨k, hk, hn⟩
    rcases List.mem_append.mp hk with hk | hk
    · exact ⟨k, hk, hn⟩
    · rw [List.mem_singleton.mp hk, hfar] at hn
      exact ⟨j, hj, by omega, hn.2⟩

/-- A place that nothing has been spread across yet begins a stretch of its own. -/
theorem Spread.extend {s : Places × Nat} (h : Spread p path ps s) {i : Nat} (hle : s.2 ≤ i) :
    Spread p path (ps ++ [i])
      ((List.range' i (furthest p path i - i + 1)).reverseAux s.1, furthest p path i + 1) := by
  have hfar := le_furthest p path i
  have hmem : ∀ n, n ∈ (List.range' i (furthest p path i - i + 1)).reverseAux s.1 ↔
      (i ≤ n ∧ n ≤ furthest p path i) ∨ n ∈ s.1 := by
    intro n
    rw [List.reverseAux_eq, List.mem_append, List.mem_reverse, List.mem_range'_1]
    exact or_congr_left (and_congr_right fun _ => by omega)
  refine ⟨?_, fun n hn => ?_, fun n => ?_, .inr ⟨i, by simp, rfl⟩⟩
  · rw [List.reverseAux_eq, List.reverse_append, List.reverse_reverse, List.pairwise_append]
    refine ⟨h.ascending, List.pairwise_lt_range', fun a ha b hb => ?_⟩
    have := h.lt_next a (List.mem_reverse.mp ha)
    have := (List.mem_range'_1.mp hb).1
    omega
  · rcases (hmem n).mp hn with hn | hn
    · exact Nat.lt_succ_of_le hn.2
    · exact Nat.lt_succ_of_le (by have := h.lt_next n hn; omega)
  · rw [hmem, h.mem_iff]
    simp only [List.mem_append, List.mem_singleton, or_and_right, exists_or, exists_eq_left]
    exact Or.comm

theorem Spread.step {s : Places × Nat} (h : Spread p path ps s) {i : Nat}
    (hlast : ∀ j ∈ ps, j < i) : Spread p path (ps ++ [i]) (spreadOne p path s i) := by
  unfold spreadOne
  split
  · next hlt => exact h.skip hlast hlt
  · next hle => exact h.extend (Nat.not_lt.mp hle)

theorem Spread.run {s : Places × Nat} (h : Spread p path ps s)
    (hasc : (ps ++ qs).Pairwise (· < ·)) :
    Spread p path (ps ++ qs) (qs.foldl (spreadOne p path) s) := by
  induction qs generalizing ps s with
  | nil => simpa using h
  | cons i qs ih =>
    have hlast : ∀ j ∈ ps, j < i := fun j hj =>
      (List.pairwise_append.mp hasc).2.2 j hj i List.mem_cons_self
    have hrun := ih (h.step hlast) (by simpa using hasc)
    simpa using hrun

end Places

/-! ## Moving over a language -/

/-- The places after a move over a language. -/
structure Moves (path : Array UInt8) (l : Language UInt8) (ps qs : Places) : Prop where
  ascending : qs.Pairwise (· < ·)
  mem_iff : ∀ n, n ∈ qs ↔ ∃ i ∈ ps, ∃ w ∈ l, w <+: path.toList.drop i ∧ n = i + w.length

theorem moves_one (hasc : ps.Pairwise (· < ·)) : Moves path 1 ps ps := by
  refine ⟨hasc, fun n => ?_⟩
  simp [Language.mem_one]

theorem moves_zero : Moves path 0 ps [] :=
  ⟨.nil, by simp [Language.notMem_zero]⟩

theorem append_prefix_iff {u v w : List UInt8} :
    u ++ v <+: w ↔ u <+: w ∧ v <+: w.drop u.length := by
  constructor
  · rintro ⟨rest, rfl⟩
    exact ⟨⟨v ++ rest, by simp⟩, ⟨rest, by simp⟩⟩
  · rintro ⟨⟨rest, rfl⟩, hv⟩
    rw [List.drop_left] at hv
    exact (List.prefix_append_right_inj u).mpr hv

theorem Moves.mul (h : Moves path l ps qs) (h' : Moves path m qs rs) :
    Moves path (l * m) ps rs := by
  refine ⟨h'.ascending, fun n => ?_⟩
  simp only [h'.mem_iff, h.mem_iff, Language.mem_mul]
  constructor
  · rintro ⟨_, ⟨i, hi, u, hu, hpre, rfl⟩, v, hv, hpre', rfl⟩
    refine ⟨i, hi, u ++ v, ⟨u, hu, v, hv, rfl⟩, append_prefix_iff.mpr ⟨hpre, ?_⟩, ?_⟩
    · rwa [List.drop_drop]
    · rw [List.length_append, Nat.add_assoc]
  · rintro ⟨i, hi, _, ⟨u, hu, v, hv, rfl⟩, hpre, rfl⟩
    obtain ⟨hpre, hpre'⟩ := append_prefix_iff.mp hpre
    rw [List.drop_drop] at hpre'
    refine ⟨i + u.length, ⟨i, hi, u, hu, hpre, rfl⟩, v, hv, hpre', ?_⟩
    rw [List.length_append, Nat.add_assoc]

theorem Moves.add (h : Moves path l ps qs) (h' : Moves path m ps rs) :
    Moves path (l + m) ps (qs.union rs) := by
  refine ⟨Places.ascending_union h.ascending h'.ascending, fun n => ?_⟩
  simp only [Places.mem_union, h.mem_iff, h'.mem_iff, Language.mem_add, or_and_right, exists_or,
    and_or_left]

/-- Words of one byte that passes a test. -/
def oneByte (p : UInt8 → Bool) : Language UInt8 :=
  {w | ∃ b, p b = true ∧ w = [b]}

/-- Words of bytes that pass a test. -/
def allBytes (p : UInt8 → Bool) : Language UInt8 :=
  {w | ∀ b ∈ w, p b = true}

theorem moves_advance (hasc : ps.Pairwise (· < ·)) :
    Moves path (oneByte p) ps (ps.advance p path) := by
  refine ⟨Places.ascending_advance hasc, fun n => Places.mem_advance.trans ?_⟩
  refine exists_congr fun i => and_congr_right fun _ => ?_
  constructor
  · rintro ⟨b, hb, hget, rfl⟩
    exact ⟨[b], ⟨b, hb, rfl⟩, Places.cons_prefix_drop_iff.mpr ⟨hget, List.nil_prefix⟩, rfl⟩
  · rintro ⟨_, ⟨b, hb, rfl⟩, hpre, rfl⟩
    exact ⟨b, hb, (Places.cons_prefix_drop_iff.mp hpre).1, rfl⟩

theorem moves_spread (hasc : ps.Pairwise (· < ·)) :
    Moves path (allBytes p) ps (ps.spread p path) := by
  have h : Places.Spread p path ([] ++ ps) _ := Places.spread_nil.run hasc
  refine ⟨h.ascending, fun n => ?_⟩
  rw [Places.spread, List.mem_reverse, h.mem_iff]
  refine exists_congr fun i => and_congr_right fun _ => Places.exists_stretch_iff.symm.trans ?_
  rfl

end PathSieve.Glob

/-
  What a glob matches.

  A glob denotes a language of byte strings: the product of what its tokens denote
  (`languageOf`). It matches a text that is in the language, with two provisos: a single
  leading token matches everything, and a glob that asks for a base name or an extension
  does not match a text whose last component is two full stops (`Matches`).

  A run over a path moves the place in front of it over the language (`moves_advanceAll`,
  by recursion on the glob). So one run answers for every beginning of a path at once: the
  glob matches a beginning, taken by itself, if and only if its length is among the endings
  (`mem_endings_iff`).
-/
import PathSieve.Proofs.Glob.Places

namespace PathSieve.Glob

variable {path : Array UInt8} {ps : Places}

/-- One word alone. -/
def word (bytes : List UInt8) : Language UInt8 :=
  {w | w = bytes}

/-- The word of one slash. -/
def oneSlash : Language UInt8 :=
  oneByte (· == slash)

/-- All words. -/
def anything : Language UInt8 :=
  allBytes fun _ => true

mutual

/-- What a token accounts for. -/
def Token.language : Token → Language UInt8
  | .literal c => word (String.utf8EncodeChar c)
  | .anyByte => oneByte (· != slash)
  | .star => allBytes (· != slash)
  | .leading => 1 + anything * oneSlash
  | .trailing => oneSlash * anything
  | .between => oneSlash + oneSlash * anything * oneSlash
  | .oneOf negated ranges => oneByte (classHas negated ranges)
  | .choice branches => if allVoid branches then 1 else languageOfAny branches

/-- What tokens account for, one after the other. -/
def languageOf : List Token → Language UInt8
  | [] => 1
  | t :: ts => t.language * languageOf ts

/-- What some branch that stands for text accounts for. -/
def languageOfAny : List (List Token) → Language UInt8
  | [] => 0
  | b :: bs => if isVoid b then languageOfAny bs else languageOf b + languageOfAny bs

end

/-! ## Runs -/

theorem oneByte_mul_word (b : UInt8) (bytes : List UInt8) :
    oneByte (· == b) * word bytes = word (b :: bytes) := by
  ext w
  rw [Language.mem_mul]
  constructor
  · rintro ⟨_, ⟨c, hc, rfl⟩, _, rfl, rfl⟩
    rw [eq_of_beq hc]
    rfl
  · rintro rfl
    exact ⟨[b], ⟨b, beq_self_eq_true b, rfl⟩, bytes, rfl, rfl⟩

theorem moves_bytes (hasc : ps.Pairwise (· < ·)) (bytes : List UInt8) :
    Moves path (word bytes) ps
      (bytes.foldl (fun ps b => Places.advance (· == b) path ps) ps) := by
  induction bytes generalizing ps with
  | nil => exact moves_one hasc
  | cons b bytes ih =>
    have hstep : Moves path (oneByte (· == b)) ps _ := moves_advance hasc
    have h := hstep.mul (ih hstep.ascending)
    rwa [oneByte_mul_word] at h

theorem moves_overSlash (hasc : ps.Pairwise (· < ·)) :
    Moves path oneSlash ps (ps.overSlash path) :=
  moves_advance hasc

theorem moves_overAll (hasc : ps.Pairwise (· < ·)) :
    Moves path anything ps (ps.overAll path) :=
  moves_spread hasc

/-- One slash alone is anything and a slash. -/
theorem one_add_oneSlash_add :
    1 + oneSlash + anything * oneSlash = Token.language .leading := by
  have hsub : ∀ w ∈ oneSlash, w ∈ anything * oneSlash := fun w hw =>
    Language.mem_mul.mpr ⟨[], List.forall_mem_nil _, w, hw, rfl⟩
  ext w
  rw [Token.language, Language.mem_add, Language.mem_add, Language.mem_add, or_assoc,
    or_iff_right_of_imp (hsub w)]

mutual

theorem Token.moves_advance (path : Array UInt8) {ps : Places} (hasc : ps.Pairwise (· < ·)) :
    ∀ t : Token, Moves path t.language ps (t.advance path ps)
  | .literal c => moves_bytes hasc (String.utf8EncodeChar c)
  | .anyByte => Glob.moves_advance hasc
  | .star => moves_spread hasc
  | .leading => by
    have hone : Moves path oneSlash ps _ := moves_overSlash hasc
    have hall : Moves path anything ps _ := moves_overAll hasc
    have h := ((moves_one hasc).add hone).add (hall.mul (moves_overSlash hall.ascending))
    rwa [one_add_oneSlash_add] at h
  | .trailing => (moves_overSlash hasc).mul (moves_overAll (moves_overSlash hasc).ascending)
  | .between => by
    have hone : Moves path oneSlash ps _ := moves_overSlash hasc
    have hall := hone.mul (moves_overAll hone.ascending)
    exact hone.add (hall.mul (moves_overSlash hall.ascending))
  | .oneOf negated ranges => Glob.moves_advance hasc
  | .choice branches => by
    rw [Token.language, Token.advance]
    split
    · exact moves_one hasc
    · exact moves_advanceAny path hasc branches

theorem moves_advanceAll (path : Array UInt8) {ps : Places} (hasc : ps.Pairwise (· < ·)) :
    ∀ ts : List Token, Moves path (languageOf ts) ps (advanceAll path ps ts)
  | [] => moves_one hasc
  | t :: ts =>
    have h := Token.moves_advance path hasc t
    h.mul (moves_advanceAll path h.ascending ts)

theorem moves_advanceAny (path : Array UInt8) {ps : Places} (hasc : ps.Pairwise (· < ·)) :
    ∀ bs : List (List Token), Moves path (languageOfAny bs) ps (advanceAny path ps bs)
  | [] => moves_zero
  | b :: bs => by
    rw [languageOfAny, advanceAny]
    split
    · exact moves_advanceAny path hasc bs
    · exact (moves_advanceAll path hasc b).add (moves_advanceAny path hasc bs)

end

/-- The places that the tokens reach from the beginning are the lengths of the beginnings of
    the path that they account for. -/
theorem mem_advanceAll_iff {ts : List Token} {n : Nat} :
    n ∈ advanceAll path [0] ts ↔ n ≤ path.size ∧ path.toList.take n ∈ languageOf ts := by
  rw [(moves_advanceAll path (List.pairwise_singleton _ 0) ts).mem_iff]
  simp only [List.mem_singleton, exists_eq_left, List.drop_zero, Nat.zero_add]
  constructor
  · rintro ⟨w, hw, hpre, rfl⟩
    rw [← List.prefix_iff_eq_take.mp hpre]
    exact ⟨hpre.length_le, hw⟩
  · rintro ⟨hn, hw⟩
    exact ⟨_, hw, List.take_prefix n _, by simpa using hn⟩

/-! ## Matching -/

/-- Is the last component of a text exactly two full stops? -/
def EndsInDotDot (text : List UInt8) : Prop :=
  ∃ front, text = front ++ [dot, dot] ∧ (front = [] ∨ front.getLast? = some slash)

/-- Does a glob match a text? -/
def Matches (g : Glob) (text : List UInt8) : Prop :=
  (g = [.leading] ∨ text ∈ languageOf g) ∧ (g.asksForName = true → ¬ EndsInDotDot text)

theorem endsInDotDot_append_iff {front : List UInt8} {b c : UInt8} :
    EndsInDotDot (front ++ [b, c]) ↔
      b = dot ∧ c = dot ∧ (front = [] ∨ front.getLast? = some slash) := by
  constructor
  · rintro ⟨front', heq, hfront⟩
    obtain ⟨rfl, hlast⟩ := List.append_inj' heq rfl
    simp only [List.cons.injEq, and_true] at hlast
    exact ⟨hlast.1, hlast.2, hfront⟩
  · rintro ⟨rfl, rfl, hfront⟩
    exact ⟨front, rfl, hfront⟩

theorem endsInDotDot_iff {n : Nat} (hn : n ≤ path.size) :
    endsInDotDot path n = true ↔ EndsInDotDot (path.toList.take n) := by
  obtain ⟨bytes⟩ := path
  rw [List.size_toArray] at hn
  rcases Nat.lt_or_ge n 2 with hshort | hlong
  · have hfalse : ¬ EndsInDotDot (bytes.take n) := by
      rintro ⟨front, heq, -⟩
      have hlen := congrArg List.length heq
      simp only [List.length_take, List.length_append, List.length_cons, List.length_nil] at hlen
      omega
    simp [endsInDotDot, hfalse, Nat.not_le.mpr hshort]
  obtain ⟨n, rfl⟩ := Nat.exists_eq_add_of_le' hlong
  have htake : bytes.take (n + 2) = bytes.take n ++ [bytes[n], bytes[n + 1]] := by
    rw [← List.take_append_getElem (by omega), ← List.take_append_getElem (by omega),
      List.append_assoc]
    rfl
  rw [htake, endsInDotDot_append_iff]
  have hlast : bytes[n + 1]? = some bytes[n + 1] := List.getElem?_eq_getElem (by omega)
  have hprev : bytes[n]? = some bytes[n] := List.getElem?_eq_getElem (by omega)
  cases n with
  | zero => simp [endsInDotDot, hlast, hprev, and_comm]
  | succ n =>
    have hbefore : bytes[n]? = some bytes[n] := List.getElem?_eq_getElem (by omega)
    have hfront : (bytes.take (n + 1)).getLast? = some bytes[n] := by
      rw [← List.take_append_getElem (by omega), List.getLast?_concat]
    have hne : bytes.take (n + 1) ≠ [] := by
      intro hnil
      rw [hnil] at hfront
      cases hfront
    rw [hfront, or_iff_right hne]
    simp [endsInDotDot, hlast, hprev, hbefore, and_assoc, and_left_comm]

theorem mem_reach_iff {g : Glob} {n : Nat} :
    n ∈ g.reach path ↔ n ≤ path.size ∧ (g = [.leading] ∨ path.toList.take n ∈ languageOf g) := by
  unfold reach
  split
  · rw [List.mem_range, Nat.lt_succ_iff]
    simp
  · next hg => rw [mem_advanceAll_iff, or_iff_right (by simpa using hg)]

/-- A glob matches a beginning of a path if and only if its length is among the endings. -/
theorem mem_endings_iff {g : Glob} {n : Nat} :
    n ∈ g.endings path ↔ n ≤ path.size ∧ g.Matches (path.toList.take n) := by
  unfold endings Matches
  split
  · next hname =>
    rw [List.mem_filter, mem_reach_iff, and_assoc]
    refine and_congr_right fun hn => and_congr_right fun _ => ?_
    simp [hname, ← endsInDotDot_iff hn]
  · next hname => simp [mem_reach_iff, hname]

end PathSieve.Glob

/-
  Flat JSON documents: one object or one array whose elements are `null` or natural
  numbers.

  The grammar of tokens has one form for each document (`Flat.toTokens`), and reading
  accepts exactly these forms (`Flat.ofTokens?_eq_some_iff`).
-/
import PathSieve.Json.Token

namespace PathSieve.Json

/-- An element of a flat document. -/
inductive Scalar where
  | null
  | number (n : Nat)
  deriving DecidableEq, Repr

/-- The token of an element. -/
def Scalar.token : Scalar → Token
  | .null => .null
  | .number n => .number n

/-- The element that a token is, if it is one. -/
def Scalar.ofToken? : Token → Option Scalar
  | .null => some .null
  | .number n => some (.number n)
  | _ => none

@[simp] theorem Scalar.ofToken?_token (s : Scalar) : Scalar.ofToken? s.token = some s := by
  cases s <;> rfl

theorem Scalar.ofToken?_eq_some_iff {t : Token} {s : Scalar} :
    Scalar.ofToken? t = some s ↔ t = s.token := by
  cases t <;> cases s <;> simp [Scalar.ofToken?, Scalar.token]

/-- A flat document. -/
inductive Flat where
  | object (members : List (List Char × Scalar))
  | array (elements : List Scalar)
  deriving DecidableEq, Repr

namespace Flat

/-- The tokens of members, each but the first after a comma, and the closing brace. -/
def memberTokens : List (List Char × Scalar) → List Token
  | [] => [.braceClose]
  | m :: ms => .comma :: .text m.1 :: .colon :: m.2.token :: memberTokens ms

/-- The tokens of elements, each but the first after a comma, and the closing bracket. -/
def elementTokens : List Scalar → List Token
  | [] => [.bracketClose]
  | s :: ss => .comma :: s.token :: elementTokens ss

/-- The tokens of a document. -/
def toTokens : Flat → List Token
  | .object ms => .braceOpen :: (match memberTokens ms with
    | .comma :: ts => ts
    | ts => ts)
  | .array ss => .bracketOpen :: (match elementTokens ss with
    | .comma :: ts => ts
    | ts => ts)

/-- Members that each follow a comma, up to the closing brace and the end. -/
def members? : List Token → Option (List (List Char × Scalar))
  | [.braceClose] => some []
  | .comma :: .text key :: .colon :: value :: ts =>
    match Scalar.ofToken? value, members? ts with
    | some s, some ms => some ((key, s) :: ms)
    | _, _ => none
  | _ => none

/-- Elements that each follow a comma, up to the closing bracket and the end. -/
def elements? : List Token → Option (List Scalar)
  | [.bracketClose] => some []
  | .comma :: value :: ts =>
    match Scalar.ofToken? value, elements? ts with
    | some s, some ss => some (s :: ss)
    | _, _ => none
  | _ => none

/-- The document that the tokens spell, if they spell one. -/
def ofTokens? : List Token → Option Flat
  | [.braceOpen, .braceClose] => some (.object [])
  | .braceOpen :: ts => (members? (.comma :: ts)).map .object
  | [.bracketOpen, .bracketClose] => some (.array [])
  | .bracketOpen :: ts => (elements? (.comma :: ts)).map .array
  | _ => none

/-- The document that a text is, if it is one. -/
def ofText? (text : String) : Option Flat :=
  (Token.ofText? text.toList).bind ofTokens?

theorem members?_memberTokens (ms : List (List Char × Scalar)) :
    members? (memberTokens ms) = some ms := by
  induction ms with
  | nil => rfl
  | cons m ms ih => simp [memberTokens, members?, ih]

theorem eq_memberTokens {ts : List Token} {ms : List (List Char × Scalar)}
    (h : members? ts = some ms) : ts = memberTokens ms := by
  fun_induction members? ts generalizing ms with
  | case1 => simp_all [memberTokens]
  | case2 key value ts ms' s hms hs ih =>
    cases h
    rw [memberTokens, ← ih hms, ← Scalar.ofToken?_eq_some_iff.1 hs]
  | case3 => simp at h
  | case4 => simp at h

theorem elements?_elementTokens (ss : List Scalar) : elements? (elementTokens ss) = some ss := by
  induction ss with
  | nil => rfl
  | cons s ss ih => simp [elementTokens, elements?, ih]

theorem eq_elementTokens {ts : List Token} {ss : List Scalar} (h : elements? ts = some ss) :
    ts = elementTokens ss := by
  fun_induction elements? ts generalizing ss with
  | case1 => simp_all [elementTokens]
  | case2 value ts ss' s hss hs ih =>
    cases h
    rw [elementTokens, ← ih hss, ← Scalar.ofToken?_eq_some_iff.1 hs]
  | case3 => simp at h
  | case4 => simp at h

theorem ofTokens?_toTokens (d : Flat) : ofTokens? d.toTokens = some d := by
  cases d with
  | object ms =>
    cases ms with
    | nil => rfl
    | cons m ms =>
      have := members?_memberTokens (m :: ms)
      simpa [toTokens, memberTokens, ofTokens?] using this
  | array ss =>
    cases ss with
    | nil => rfl
    | cons s ss =>
      have := elements?_elementTokens (s :: ss)
      cases s <;> simpa [toTokens, elementTokens, ofTokens?, Scalar.token] using this

theorem eq_toTokens {ts : List Token} {d : Flat} (h : ofTokens? ts = some d) :
    ts = d.toTokens := by
  unfold ofTokens? at h
  split at h
  · cases h; rfl
  · obtain ⟨ms, hms, rfl⟩ := Option.map_eq_some_iff.1 h
    have := eq_memberTokens hms
    cases ms with
    | nil => simp [memberTokens] at this
    | cons m ms => simp_all [toTokens, memberTokens]
  · cases h; rfl
  · obtain ⟨ss, hss, rfl⟩ := Option.map_eq_some_iff.1 h
    have := eq_elementTokens hss
    cases ss with
    | nil => simp [elementTokens] at this
    | cons s ss => simp_all [toTokens, elementTokens]
  · simp at h

theorem ofTokens?_eq_some_iff {ts : List Token} {d : Flat} :
    ofTokens? ts = some d ↔ ts = d.toTokens :=
  ⟨eq_toTokens, fun h => h ▸ ofTokens?_toTokens d⟩

end Flat

end PathSieve.Json

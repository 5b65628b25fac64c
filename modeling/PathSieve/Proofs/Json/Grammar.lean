/-
  The grammar of JSON.

  All of JSON is here, production by production, over lists of characters: numbers with
  sign, fraction and exponent, strings with their escapes, arrays and objects that nest.
  The relations say which texts spell which value. They know nothing of tokens, of flat
  documents or of configurations, so that readers of a part of JSON can be measured
  against them.

  A number is kept as it is written, because what it may stand for is the business of
  whoever reads it. Half of a surrogate pair on its own spells no character.
-/
import PathSieve.Json.Token

namespace PathSieve.Json

/-- A JSON value. Numbers are kept as they are written, members in their order. -/
inductive Value where
  | null
  | bool (b : Bool)
  | number (literal : List Char)
  | text (cs : List Char)
  | array (elements : List Value)
  | object (members : List (List Char × Value))

/-- Nothing but white space. -/
def IsPadding (w : List Char) : Prop :=
  ∀ c ∈ w, isSpace c = true

theorem isPadding_nil : IsPadding [] := by
  simp [IsPadding]

/-! ## Numbers -/

/-- One digit or more. -/
structure IsDigits (ds : List Char) : Prop where
  ne_nil : ds ≠ []
  isDigit : ∀ d ∈ ds, d.isDigit = true

/-- An integer literal: digits, the first of which is zero only when it is the only one. -/
structure IsInt (ds : List Char) : Prop extends IsDigits ds where
  zero_alone : ds.head? = some '0' → ds = ['0']

/-- A fraction, which may be missing. -/
inductive IsFraction : List Char → Prop where
  | absent : IsFraction []
  | present {ds : List Char} (h : IsDigits ds) : IsFraction ('.' :: ds)

/-- An exponent, which may be missing. -/
inductive IsExponent : List Char → Prop where
  | absent : IsExponent []
  | present {e : Char} {sign ds : List Char} (he : e = 'e' ∨ e = 'E')
      (hsign : sign = [] ∨ sign = ['+'] ∨ sign = ['-']) (h : IsDigits ds) :
      IsExponent (e :: sign ++ ds)

/-- A number: an integer literal that may have a minus sign, a fraction and an exponent. -/
inductive IsNumber : List Char → Prop where
  | mk {sign int fraction exponent : List Char} (hsign : sign = [] ∨ sign = ['-'])
      (hint : IsInt int) (hfraction : IsFraction fraction) (hexponent : IsExponent exponent) :
      IsNumber (sign ++ int ++ fraction ++ exponent)

theorem IsInt.isNumber {ds : List Char} (h : IsInt ds) : IsNumber ds := by
  simpa using IsNumber.mk (.inl rfl) h .absent .absent

/-! ## Strings -/

/-- Four hexadecimal digits that write a unit. -/
inductive IsUnit : List Char → Nat → Prop where
  | mk {a b c d : Char} {i j k l : Nat} (ha : hexDigit? a = some i) (hb : hexDigit? b = some j)
      (hc : hexDigit? c = some k) (hd : hexDigit? d = some l) :
      IsUnit [a, b, c, d] (((i * 16 + j) * 16 + k) * 16 + l)

/-- What may follow a backslash as a single character, and what that stands for. -/
def shortEscapes : List (Char × Char) :=
  [('"', '"'), ('\\', '\\'), ('/', '/'), ('b', '\x08'), ('f', '\x0c'), ('n', '\n'), ('r', '\r'),
   ('t', '\t')]

/-- The spellings of a character inside a string. -/
inductive SpellsChar : Char → List Char → Prop where
  | plain {c : Char} (hc : 0x20 ≤ c.toNat) (hquote : c ≠ '"') (hbackslash : c ≠ '\\') :
      SpellsChar c [c]
  | short {mark c : Char} (h : (mark, c) ∈ shortEscapes) : SpellsChar c ['\\', mark]
  | unit {ds : List Char} {u : Nat} (h : IsUnit ds u) (hhigh : isHighSurrogate u = false)
      (hlow : isLowSurrogate u = false) : SpellsChar (Char.ofNat u) ('\\' :: 'u' :: ds)
  | pair {ds es : List Char} {high low : Nat} (hds : IsUnit ds high) (hes : IsUnit es low)
      (hhigh : isHighSurrogate high = true) (hlow : isLowSurrogate low = true) :
      SpellsChar (Char.ofNat (0x10000 + (high - 0xD800) * 0x400 + (low - 0xDC00)))
        ('\\' :: 'u' :: ds ++ '\\' :: 'u' :: es)

/-- The spellings of a text between quotes. -/
inductive SpellsText : List Char → List Char → Prop where
  | nil : SpellsText [] []
  | cons {c : Char} {t cs ds : List Char} (h : SpellsChar c cs) (ht : SpellsText t ds) :
      SpellsText (c :: t) (cs ++ ds)

/-! ## Values -/

mutual

/-- The spellings of a value. -/
inductive Spells : Value → List Char → Prop where
  | null : Spells .null ['n', 'u', 'l', 'l']
  | true : Spells (.bool true) ['t', 'r', 'u', 'e']
  | false : Spells (.bool false) ['f', 'a', 'l', 's', 'e']
  | number {cs : List Char} (h : IsNumber cs) : Spells (.number cs) cs
  | text {t cs : List Char} (h : SpellsText t cs) : Spells (.text t) ('"' :: cs ++ ['"'])
  | emptyArray {w : List Char} (hw : IsPadding w) : Spells (.array []) ('[' :: w ++ [']'])
  | array {vs : List Value} {cs : List Char} (h : SpellsElements vs cs) :
      Spells (.array vs) ('[' :: cs ++ [']'])
  | emptyObject {w : List Char} (hw : IsPadding w) :
      Spells (.object []) ('\x7b' :: w ++ ['\x7d'])
  | object {ms : List (List Char × Value)} {cs : List Char} (h : SpellsMembers ms cs) :
      Spells (.object ms) ('\x7b' :: cs ++ ['\x7d'])

/-- The spellings of a value between white space. -/
inductive SpellsPadded : Value → List Char → Prop where
  | mk {v : Value} {w cs w' : List Char} (hw : IsPadding w) (h : Spells v cs)
      (hw' : IsPadding w') : SpellsPadded v (w ++ cs ++ w')

/-- The spellings of one element or more, with commas in between. -/
inductive SpellsElements : List Value → List Char → Prop where
  | last {v : Value} {cs : List Char} (h : SpellsPadded v cs) : SpellsElements [v] cs
  | more {v : Value} {vs : List Value} {cs ds : List Char} (h : SpellsPadded v cs)
      (hs : SpellsElements vs ds) : SpellsElements (v :: vs) (cs ++ ',' :: ds)

/-- The spellings of a member: a key, a colon and a value. -/
inductive SpellsMember : List Char × Value → List Char → Prop where
  | mk {key : List Char} {v : Value} {w ks w' cs : List Char} (hw : IsPadding w)
      (hkey : SpellsText key ks) (hw' : IsPadding w') (h : SpellsPadded v cs) :
      SpellsMember (key, v) (w ++ '"' :: ks ++ '"' :: w' ++ ':' :: cs)

/-- The spellings of one member or more, with commas in between. -/
inductive SpellsMembers : List (List Char × Value) → List Char → Prop where
  | last {m : List Char × Value} {cs : List Char} (h : SpellsMember m cs) :
      SpellsMembers [m] cs
  | more {m : List Char × Value} {ms : List (List Char × Value)} {cs ds : List Char}
      (h : SpellsMember m cs) (hs : SpellsMembers ms ds) :
      SpellsMembers (m :: ms) (cs ++ ',' :: ds)

end

end PathSieve.Json

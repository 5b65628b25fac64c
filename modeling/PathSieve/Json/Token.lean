/-
  The tokens of flat JSON.

  A configuration is written in JSON, but only a small part of JSON can be one:
  objects and arrays whose elements are `null` or natural numbers. Its tokens are the
  six marks, `null`, natural numbers in decimal without leading zeros, and texts
  between quotes. Every other beginning of a token (a minus sign, a letter, a
  fraction) is refused, because no configuration holds it.

  White space is the space, tab, newline and carriage return. Texts are read strictly:
  no bare control characters, only the escapes of the standard, and surrogates in
  pairs only.
-/

namespace PathSieve.Json

/-- A token of flat JSON. -/
inductive Token where
  | braceOpen
  | braceClose
  | bracketOpen
  | bracketClose
  | colon
  | comma
  | null
  | number (n : Nat)
  | text (cs : List Char)
  deriving DecidableEq, Repr

/-- White space between tokens. -/
def isSpace (c : Char) : Bool :=
  c = ' ' || c = '\t' || c = '\n' || c = '\r'

/-- The value of a hexadecimal digit. -/
def hexDigit? (c : Char) : Option Nat :=
  if '0' ≤ c && c ≤ '9' then some (c.toNat - '0'.toNat)
  else if 'a' ≤ c && c ≤ 'f' then some (c.toNat - 'a'.toNat + 10)
  else if 'A' ≤ c && c ≤ 'F' then some (c.toNat - 'A'.toNat + 10)
  else none

/-- Four hexadecimal digits as a 16-bit unit, and what follows them. -/
def unit? : List Char → Option (Nat × List Char)
  | a :: b :: c :: d :: rest => do
    let a ← hexDigit? a
    let b ← hexDigit? b
    let c ← hexDigit? c
    let d ← hexDigit? d
    pure (((a * 16 + b) * 16 + c) * 16 + d, rest)
  | _ => none

/-- A unit that opens a surrogate pair. -/
def isHighSurrogate (u : Nat) : Bool := 0xD800 ≤ u && u < 0xDC00

/-- A unit that closes a surrogate pair. -/
def isLowSurrogate (u : Nat) : Bool := 0xDC00 ≤ u && u < 0xE000

/-- The closing half of a surrogate pair, after the opening unit `high`. -/
def pair? (high : Nat) : List Char → Option (Char × List Char)
  | '\\' :: 'u' :: rest =>
    match unit? rest with
    | some (low, rest) =>
      if isLowSurrogate low then
        some (Char.ofNat (0x10000 + (high - 0xD800) * 0x400 + (low - 0xDC00)), rest)
      else none
    | none => none
  | _ => none

/-- The character that an escape stands for; its backslash has been read. -/
def escape? : List Char → Option (Char × List Char)
  | '"' :: rest => some ('"', rest)
  | '\\' :: rest => some ('\\', rest)
  | '/' :: rest => some ('/', rest)
  | 'b' :: rest => some ('\x08', rest)
  | 'f' :: rest => some ('\x0c', rest)
  | 'n' :: rest => some ('\n', rest)
  | 'r' :: rest => some ('\r', rest)
  | 't' :: rest => some ('\t', rest)
  | 'u' :: rest =>
    match unit? rest with
    | some (u, rest) =>
      if isHighSurrogate u then pair? u rest
      else if isLowSurrogate u then none
      else some (Char.ofNat u, rest)
    | none => none
  | _ => none

theorem unit?_length {cs rest : List Char} {u : Nat} (h : unit? cs = some (u, rest)) :
    rest.length < cs.length := by
  unfold unit? at h
  split at h
  · simp only [Option.bind_eq_bind, Option.bind_eq_some_iff, Option.pure_def,
      Option.some.injEq, Prod.mk.injEq] at h
    obtain ⟨_, _, _, _, _, _, _, _, _, rfl⟩ := h
    simp only [List.length_cons]
    omega
  · simp at h

theorem pair?_length {high : Nat} {cs rest : List Char} {c : Char}
    (h : pair? high cs = some (c, rest)) : rest.length < cs.length := by
  unfold pair? at h
  split at h
  · split at h
    · next hu =>
      split at h
      · have := unit?_length hu
        simp only [Option.some.injEq, Prod.mk.injEq] at h
        obtain ⟨_, rfl⟩ := h
        simp only [List.length_cons]
        omega
      · simp at h
    · simp at h
  · simp at h

theorem escape?_length {cs rest : List Char} {c : Char} (h : escape? cs = some (c, rest)) :
    rest.length < cs.length := by
  unfold escape? at h
  split at h
  case h_9 rest' =>
    split at h
    · next hu =>
      have hlen := unit?_length hu
      split at h
      · have := pair?_length h
        simp only [List.length_cons]
        omega
      · split at h
        · simp at h
        · simp only [Option.some.injEq, Prod.mk.injEq] at h
          obtain ⟨_, rfl⟩ := h
          simp only [List.length_cons]
          omega
    · simp at h
  case h_10 => simp at h
  all_goals
    simp only [Option.some.injEq, Prod.mk.injEq] at h
    obtain ⟨_, rfl⟩ := h
    simp

/-- The rest of a text whose opening quote has been read; `rev` holds, in reverse, what
    has been read of it. -/
def text? (rev : List Char) : List Char → Option (List Char × List Char)
  | [] => none
  | '"' :: rest => some (rev.reverse, rest)
  | '\\' :: rest =>
    match _h : escape? rest with
    | some (c, rest') => text? (c :: rev) rest'
    | none => none
  | c :: rest => if c.toNat < 0x20 then none else text? (c :: rev) rest
termination_by cs => cs.length
decreasing_by
  · have := escape?_length _h
    simp only [List.length_cons]
    omega
  · simp

theorem text?_length {rev cs t rest : List Char} (h : text? rev cs = some (t, rest)) :
    rest.length < cs.length := by
  fun_induction text? rev cs with
  | case1 => simp at h
  | case2 rev rest' =>
    simp only [Option.some.injEq, Prod.mk.injEq] at h
    simp [← h.2]
  | case3 rev rest' c rest'' he ih =>
    have := ih h
    have := escape?_length he
    simp only [List.length_cons]
    omega
  | case4 => simp at h
  | case5 => simp at h
  | case6 rev c rest' _ _ _ ih =>
    have := ih h
    simp only [List.length_cons]
    omega

/-- The number that decimal digits stand for. -/
def ofDigits (ds : List Char) : Nat :=
  ds.foldl (fun n d => n * 10 + (d.toNat - '0'.toNat)) 0

/-- The token that begins with `c`, and what follows it. A number takes all digits in
    reach, and only the number zero may begin with the digit zero. -/
def Token.next? (c : Char) (cs : List Char) : Option (Token × List Char) :=
  match c with
  | '\x7b' => some (.braceOpen, cs)
  | '\x7d' => some (.braceClose, cs)
  | '[' => some (.bracketOpen, cs)
  | ']' => some (.bracketClose, cs)
  | ':' => some (.colon, cs)
  | ',' => some (.comma, cs)
  | '"' => (text? [] cs).map fun r => (.text r.1, r.2)
  | 'n' =>
    match cs with
    | 'u' :: 'l' :: 'l' :: rest => some (.null, rest)
    | _ => none
  | c =>
    let more := cs.takeWhile Char.isDigit
    if !c.isDigit || (c = '0' && !more.isEmpty) then none
    else some (.number (ofDigits (c :: more)), cs.dropWhile Char.isDigit)

theorem Token.next?_length {c : Char} {cs rest : List Char} {t : Token}
    (h : Token.next? c cs = some (t, rest)) : rest.length ≤ cs.length := by
  unfold Token.next? at h
  split at h
  case h_7 =>
    simp only [Option.map_eq_some_iff, Prod.mk.injEq] at h
    obtain ⟨r, hr, _, rfl⟩ := h
    exact Nat.le_of_lt (text?_length hr)
  case h_8 =>
    split at h
    · simp only [Option.some.injEq, Prod.mk.injEq] at h
      simp only [List.length_cons, ← h.2]
      omega
    · simp at h
  case h_9 =>
    simp only at h
    split at h
    · simp at h
    · simp only [Option.some.injEq, Prod.mk.injEq] at h
      rw [← h.2]
      exact (List.dropWhile_sublist _).length_le
  all_goals
    simp only [Option.some.injEq, Prod.mk.injEq] at h
    simp [← h.2]

/-- All tokens of a text, after those in `rev`, which are in reverse. -/
def Token.scan (rev : List Token) : List Char → Option (List Token)
  | [] => some rev.reverse
  | c :: cs =>
    if isSpace c then scan rev cs
    else
      match _h : Token.next? c cs with
      | some (t, rest) => scan (t :: rev) rest
      | none => none
termination_by cs => cs.length
decreasing_by
  · simp
  · have := Token.next?_length _h
    simp only [List.length_cons]
    omega

/-- The tokens of a text. -/
def Token.ofText? (cs : List Char) : Option (List Token) :=
  Token.scan [] cs

end PathSieve.Json

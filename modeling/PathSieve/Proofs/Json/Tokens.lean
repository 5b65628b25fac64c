/-
  Tokens and their spellings.

  A text is a row of spelled tokens with white space anywhere between them; a number has
  to end where its digits end (`Lexes`). The reader of tokens accepts exactly these texts
  (`Token.ofText?_eq_some_iff`). On the way there is one such equivalence for each part of
  the reader: for units, escapes, the rest of a text and a single token.
-/
import PathSieve.Proofs.Json.Grammar
import Mathlib.Tactic.Common

namespace PathSieve.Json

/-! ## Texts -/

theorem unit?_eq_some_iff {cs rest : List Char} {u : Nat} :
    unit? cs = some (u, rest) ↔ ∃ ds, IsUnit ds u ∧ cs = ds ++ rest := by
  constructor
  · intro h
    unfold unit? at h
    split at h
    · next a b c d rest' =>
      simp only [Option.bind_eq_bind, Option.bind_eq_some_iff, Option.pure_def,
        Option.some.injEq, Prod.mk.injEq] at h
      obtain ⟨i, ha, j, hb, k, hc, l, hd, rfl, rfl⟩ := h
      exact ⟨[a, b, c, d], .mk ha hb hc hd, rfl⟩
    · simp at h
  · rintro ⟨ds, hds, rfl⟩
    cases hds with
    | mk ha hb hc hd => simp [unit?, ha, hb, hc, hd]

theorem pair?_eq_some_iff {high : Nat} {cs rest : List Char} {c : Char} :
    pair? high cs = some (c, rest) ↔ ∃ ds low, IsUnit ds low ∧ isLowSurrogate low = true ∧
      c = Char.ofNat (0x10000 + (high - 0xD800) * 0x400 + (low - 0xDC00)) ∧
      cs = '\\' :: 'u' :: ds ++ rest := by
  constructor
  · intro h
    unfold pair? at h
    split at h
    · split at h
      · next low rest' hu =>
        split at h
        · next hlow =>
          simp only [Option.some.injEq, Prod.mk.injEq] at h
          obtain ⟨rfl, rfl⟩ := h
          obtain ⟨ds, hds, rfl⟩ := unit?_eq_some_iff.mp hu
          exact ⟨ds, low, hds, hlow, rfl, rfl⟩
        · simp at h
      · simp at h
    · simp at h
  · rintro ⟨ds, low, hds, hlow, hc, rfl⟩
    simp [pair?, unit?_eq_some_iff.mpr ⟨ds, hds, rfl⟩, hlow, hc]

theorem spellsChar_of_escape? {cs rest : List Char} {c : Char}
    (h : escape? cs = some (c, rest)) : ∃ ds, SpellsChar c ('\\' :: ds) ∧ cs = ds ++ rest := by
  unfold escape? at h
  split at h
  case h_9 rest' =>
    split at h
    · next u rest'' hu =>
      obtain ⟨ds, hds, rfl⟩ := unit?_eq_some_iff.mp hu
      split at h
      · next hhigh =>
        obtain ⟨es, low, hes, hlow, hc, rfl⟩ := pair?_eq_some_iff.mp h
        rw [hc]
        exact ⟨'u' :: ds ++ '\\' :: 'u' :: es, .pair hds hes hhigh hlow, by simp⟩
      · next hhigh =>
        split at h
        · simp at h
        · next hlow =>
          simp only [Option.some.injEq, Prod.mk.injEq] at h
          obtain ⟨rfl, rfl⟩ := h
          exact ⟨_, .unit hds (by simpa using hhigh) (by simpa using hlow), rfl⟩
    · simp at h
  case h_10 => simp at h
  all_goals
    simp only [Option.some.injEq, Prod.mk.injEq] at h
    obtain ⟨rfl, rfl⟩ := h
    exact ⟨[_], .short (by decide), rfl⟩

theorem escape?_of_spells {c : Char} {ds : List Char} (h : SpellsChar c ('\\' :: ds))
    (rest : List Char) : escape? (ds ++ rest) = some (c, rest) := by
  cases h with
  | plain _ _ h => exact absurd rfl h
  | short h =>
    simp only [shortEscapes, List.mem_cons, List.not_mem_nil, or_false, Prod.mk.injEq] at h
    rcases h with ⟨rfl, rfl⟩ | ⟨rfl, rfl⟩ | ⟨rfl, rfl⟩ | ⟨rfl, rfl⟩ | ⟨rfl, rfl⟩ |
      ⟨rfl, rfl⟩ | ⟨rfl, rfl⟩ | ⟨rfl, rfl⟩ <;> rfl
  | unit h hhigh hlow =>
    simp [escape?, unit?_eq_some_iff.mpr ⟨_, h, rfl⟩, hhigh, hlow]
  | @pair ds es high low hds hes hhigh hlow =>
    have hunit : unit? (ds ++ ('\\' :: 'u' :: es ++ rest)) =
        some (high, '\\' :: 'u' :: es ++ rest) := unit?_eq_some_iff.mpr ⟨ds, hds, rfl⟩
    have hpair : pair? high ('\\' :: 'u' :: es ++ rest) = some (_, rest) :=
      pair?_eq_some_iff.mpr ⟨es, low, hes, hlow, rfl, rfl⟩
    have hsplit : ('u' :: ds).append ('\\' :: 'u' :: es) ++ rest =
        'u' :: (ds ++ ('\\' :: 'u' :: es ++ rest)) := by simp
    rw [hsplit, escape?]
    simp only [hunit, hhigh, if_true, hpair]

/-- The escapes that the reader takes are the spellings that begin with a backslash. -/
theorem escape?_eq_some_iff {cs rest : List Char} {c : Char} :
    escape? cs = some (c, rest) ↔ ∃ ds, SpellsChar c ('\\' :: ds) ∧ cs = ds ++ rest := by
  refine ⟨spellsChar_of_escape?, ?_⟩
  rintro ⟨ds, hds, rfl⟩
  exact escape?_of_spells hds rest

theorem text?_of_spells {t cs : List Char} (h : SpellsText t cs) (rev rest : List Char) :
    text? rev (cs ++ '"' :: rest) = some (rev.reverse ++ t, rest) := by
  induction h generalizing rev with
  | nil => rw [List.nil_append, text?, List.append_nil]
  | @cons c t cs ds hc ht ih =>
    have hnext : text? rev (cs ++ (ds ++ '"' :: rest)) = text? (c :: rev) (ds ++ '"' :: rest) := by
      cases hcs : cs with
      | nil => subst hcs; cases hc
      | cons a as =>
        subst hcs
        by_cases ha : a = '\\'
        · subst ha
          have he := escape?_eq_some_iff.mpr ⟨as, hc, (rfl : as ++ (ds ++ '"' :: rest) = _)⟩
          rw [List.cons_append, text?]
          split
          · next he' => rw [he] at he'; cases he'; rfl
          · next he' => rw [he] at he'; cases he'
        · cases hc with
          | plain hge hquote _ =>
            rw [List.cons_append, text?, if_neg (by omega)]
            · rfl
            · exact hquote
            · exact ha
          | short => exact absurd rfl ha
          | unit => exact absurd rfl ha
          | pair => exact absurd rfl ha
    rw [List.append_assoc, hnext, ih]
    simp

theorem spells_of_text? {rev cs t rest : List Char} (h : text? rev cs = some (t, rest)) :
    ∃ u ds, SpellsText u ds ∧ t = rev.reverse ++ u ∧ cs = ds ++ '"' :: rest := by
  fun_induction text? rev cs with
  | case1 => simp at h
  | case2 rev rest' =>
    simp only [Option.some.injEq, Prod.mk.injEq] at h
    obtain ⟨rfl, rfl⟩ := h
    exact ⟨[], [], .nil, by simp, rfl⟩
  | case3 rev rest' c rest'' he ih =>
    obtain ⟨u, ds, hu, rfl, rfl⟩ := ih h
    obtain ⟨es, hes, rfl⟩ := escape?_eq_some_iff.mp he
    exact ⟨c :: u, _, .cons hes hu, by simp, by simp⟩
  | case4 => simp at h
  | case5 => simp at h
  | case6 rev c rest' hquote hbackslash hge ih =>
    obtain ⟨u, ds, hu, rfl, rfl⟩ := ih h
    exact ⟨c :: u, _, .cons (.plain (by omega) hquote hbackslash) hu, by simp, by simp⟩

/-- What is read up to the closing quote is what the text between the quotes spells. -/
theorem text?_eq_some_iff {cs t rest : List Char} :
    text? [] cs = some (t, rest) ↔ ∃ ds, SpellsText t ds ∧ cs = ds ++ '"' :: rest := by
  constructor
  · intro h
    obtain ⟨u, ds, hu, rfl, rfl⟩ := spells_of_text? h
    exact ⟨ds, hu, rfl⟩
  · rintro ⟨ds, hds, rfl⟩
    exact text?_of_spells hds [] rest

/-! ## Tokens -/

/-- The spellings of a token. -/
inductive SpellsToken : Token → List Char → Prop where
  | braceOpen : SpellsToken .braceOpen ['\x7b']
  | braceClose : SpellsToken .braceClose ['\x7d']
  | bracketOpen : SpellsToken .bracketOpen ['[']
  | bracketClose : SpellsToken .bracketClose [']']
  | colon : SpellsToken .colon [':']
  | comma : SpellsToken .comma [',']
  | null : SpellsToken .null ['n', 'u', 'l', 'l']
  | number {ds : List Char} (h : IsInt ds) : SpellsToken (.number (ofDigits ds)) ds
  | text {t cs : List Char} (h : SpellsText t cs) : SpellsToken (.text t) ('"' :: cs ++ ['"'])

/-- No digit comes first. -/
def Stops (cs : List Char) : Prop :=
  ∀ c ∈ cs.head?, c.isDigit = false

theorem stops_cons {c : Char} (h : c.isDigit = false) (cs : List Char) : Stops (c :: cs) := by
  simpa [Stops] using h

theorem isDigit_of_isSpace {c : Char} (h : isSpace c = true) : c.isDigit = false := by
  simp only [isSpace, Bool.or_eq_true, decide_eq_true_eq] at h
  rcases h with ((rfl | rfl) | rfl) | rfl <;> decide

theorem IsPadding.stops {w rest : List Char} (hw : IsPadding w) (h : Stops rest) :
    Stops (w ++ rest) := by
  cases w with
  | nil => exact h
  | cons c w => exact stops_cons (isDigit_of_isSpace (hw c List.mem_cons_self)) _

/-- May a token end before a rest? A number takes all digits in reach. -/
def Token.EndsBefore (t : Token) (rest : List Char) : Prop :=
  ∀ n, t = .number n → Stops rest

theorem takeWhile_isDigit {ds rest : List Char} (h : ∀ d ∈ ds, d.isDigit = true)
    (hrest : Stops rest) : (ds ++ rest).takeWhile Char.isDigit = ds := by
  rw [List.takeWhile_append_of_pos h]
  cases rest with
  | nil => simp
  | cons c rest => simp [hrest c rfl]

theorem dropWhile_isDigit {ds rest : List Char} (h : ∀ d ∈ ds, d.isDigit = true)
    (hrest : Stops rest) : (ds ++ rest).dropWhile Char.isDigit = rest := by
  rw [List.dropWhile_append_of_pos h]
  cases rest with
  | nil => rfl
  | cons c rest => simp [hrest c rfl]

theorem next?_of_digit {c : Char} (hc : c.isDigit = true) (cs : List Char) :
    Token.next? c cs =
      if c = '0' && !(cs.takeWhile Char.isDigit).isEmpty then none
      else some (.number (ofDigits (c :: cs.takeWhile Char.isDigit)),
        cs.dropWhile Char.isDigit) := by
  unfold Token.next?
  split
  case h_9 => simp [hc]
  all_goals exact absurd hc (by decide)

theorem isInt_cons_iff {c : Char} {ds : List Char} :
    IsInt (c :: ds) ↔ (∀ d ∈ c :: ds, d.isDigit = true) ∧ (c = '0' → ds = []) := by
  constructor
  · intro h
    refine ⟨h.isDigit, fun hc => ?_⟩
    subst hc
    simpa using h.zero_alone rfl
  · rintro ⟨hdigits, hzero⟩
    refine ⟨⟨by simp, hdigits⟩, fun hc => ?_⟩
    obtain rfl : c = '0' := by simpa using hc
    rw [hzero rfl]

/-- A digit begins the longest run of digits there is. -/
theorem spellsToken_of_digit {c : Char} {cs rest : List Char} {t : Token}
    (hc : c.isDigit = true) (h : Token.next? c cs = some (t, rest)) :
    ∃ ds, SpellsToken t (c :: ds) ∧ cs = ds ++ rest ∧ t.EndsBefore rest := by
  rw [next?_of_digit hc] at h
  split at h
  · simp at h
  · next hzero =>
    simp only [Option.some.injEq, Prod.mk.injEq] at h
    obtain ⟨rfl, rfl⟩ := h
    have hdigits : ∀ d ∈ cs.takeWhile Char.isDigit, d.isDigit = true :=
      List.all_eq_true.mp List.all_takeWhile
    refine ⟨cs.takeWhile Char.isDigit, .number (isInt_cons_iff.mpr ⟨?_, ?_⟩),
      List.takeWhile_append_dropWhile.symm, fun _ _ => ?_⟩
    · simpa [hc] using hdigits
    · intro hc0
      simpa [hc0] using hzero
    · intro d hd
      have hnot := List.head?_dropWhile_not Char.isDigit cs
      rw [Option.mem_def.mp hd] at hnot
      exact hnot

theorem spellsToken_of_next? {c : Char} {cs rest : List Char} {t : Token}
    (h : Token.next? c cs = some (t, rest)) :
    ∃ ds, SpellsToken t (c :: ds) ∧ cs = ds ++ rest ∧ t.EndsBefore rest := by
  by_cases hc : c.isDigit = true
  · exact spellsToken_of_digit hc h
  unfold Token.next? at h
  split at h
  case h_7 =>
    obtain ⟨r, hr, hpair⟩ := Option.map_eq_some_iff.mp h
    cases hpair
    obtain ⟨ds, hds, rfl⟩ := text?_eq_some_iff.mp hr
    exact ⟨ds ++ ['"'], .text hds, by simp, by simp [Token.EndsBefore]⟩
  case h_8 =>
    split at h
    · cases h
      exact ⟨_, .null, rfl, by simp [Token.EndsBefore]⟩
    · simp at h
  case h_9 => simp [hc] at h
  all_goals
    cases h
    exact ⟨[], by constructor, rfl, by simp [Token.EndsBefore]⟩

theorem next?_of_spells {c : Char} {ds rest : List Char} {t : Token}
    (h : SpellsToken t (c :: ds)) (hends : t.EndsBefore rest) :
    Token.next? c (ds ++ rest) = some (t, rest) := by
  cases h with
  | number h =>
    obtain ⟨hdigits, hzero⟩ := isInt_cons_iff.mp h
    have hmore : ∀ d ∈ ds, d.isDigit = true := fun d hd => hdigits d (List.mem_cons_of_mem c hd)
    rw [next?_of_digit (hdigits c List.mem_cons_self),
      takeWhile_isDigit hmore (hends _ rfl), dropWhile_isDigit hmore (hends _ rfl), if_neg]
    simpa using hzero
  | @text t cs h =>
    have htext := text?_eq_some_iff.mpr ⟨cs, h, (rfl : cs ++ '"' :: rest = _)⟩
    simp [Token.next?, htext]
  | _ => rfl

/-- The reader of one token takes a spelling of it off the text. -/
theorem next?_eq_some_iff {c : Char} {cs rest : List Char} {t : Token} :
    Token.next? c cs = some (t, rest) ↔
      ∃ ds, SpellsToken t (c :: ds) ∧ cs = ds ++ rest ∧ t.EndsBefore rest := by
  refine ⟨spellsToken_of_next?, ?_⟩
  rintro ⟨ds, hds, rfl, hends⟩
  exact next?_of_spells hds hends

/-! ## Rows of tokens -/

/-- The texts that spell a row of tokens, with white space before, between and after. -/
inductive Lexes : List Token → List Char → Prop where
  | done : Lexes [] []
  | space {ts : List Token} {c : Char} {cs : List Char} (hc : isSpace c = true)
      (h : Lexes ts cs) : Lexes ts (c :: cs)
  | token {t : Token} {ts : List Token} {ds cs : List Char} (ht : SpellsToken t ds)
      (hends : t.EndsBefore cs) (h : Lexes ts cs) : Lexes (t :: ts) (ds ++ cs)

theorem IsPadding.lexes {w cs : List Char} {ts : List Token} (hw : IsPadding w)
    (h : Lexes ts cs) : Lexes ts (w ++ cs) := by
  induction w with
  | nil => exact h
  | cons c w ih =>
    exact .space (hw c List.mem_cons_self) (ih fun d hd => hw d (List.mem_cons_of_mem c hd))

theorem Lexes.isPadding {cs : List Char} (h : Lexes [] cs) : IsPadding cs := by
  generalize hts : ([] : List Token) = ts at h
  induction h with
  | done => exact isPadding_nil
  | space hc _ ih => exact List.forall_mem_cons.mpr ⟨hc, ih hts⟩
  | token => cases hts

/-- White space comes before the first token, and the others after it. -/
theorem Lexes.exists_token {t : Token} {ts : List Token} {cs : List Char}
    (h : Lexes (t :: ts) cs) : ∃ w ds rest, IsPadding w ∧ SpellsToken t ds ∧ Lexes ts rest ∧
      cs = w ++ ds ++ rest := by
  generalize hts : t :: ts = us at h
  induction h with
  | done => cases hts
  | @space _ c _ hc _ ih =>
    obtain ⟨w, ds, rest, hw, ht, hrest, rfl⟩ := ih hts
    exact ⟨c :: w, ds, rest, List.forall_mem_cons.mpr ⟨hc, hw⟩, ht, hrest, rfl⟩
  | @token _ _ ds cs ht _ h _ =>
    cases hts
    exact ⟨[], ds, cs, isPadding_nil, ht, h, rfl⟩

theorem SpellsToken.head_not_space {t : Token} {c : Char} {ds : List Char}
    (h : SpellsToken t (c :: ds)) : isSpace c = false := by
  cases h with
  | number h =>
    rw [← Bool.not_eq_true]
    intro hc
    have := isDigit_of_isSpace hc
    rw [h.isDigit c List.mem_cons_self] at this
    cases this
  | text => decide
  | _ => decide

theorem SpellsToken.ne_nil {t : Token} {ds : List Char} (h : SpellsToken t ds) : ds ≠ [] := by
  cases h with
  | number h => exact h.ne_nil
  | _ => simp

theorem scan_of_lexes {ts : List Token} {cs : List Char} (h : Lexes ts cs) (rev : List Token) :
    Token.scan rev cs = some (rev.reverse ++ ts) := by
  induction h generalizing rev with
  | done => rw [Token.scan, List.append_nil]
  | space hc _ ih => rw [Token.scan, if_pos hc, ih]
  | @token t ts ds cs ht hends _ ih =>
    cases ds with
    | nil => exact absurd rfl ht.ne_nil
    | cons c ds =>
      have hnext := next?_eq_some_iff.mpr ⟨ds, ht, rfl, hends⟩
      rw [List.cons_append, Token.scan, if_neg (by simp [ht.head_not_space])]
      split
      · next hnext' =>
        rw [hnext] at hnext'
        cases hnext'
        rw [ih]
        simp
      · next hnext' => rw [hnext] at hnext'; cases hnext'

theorem lexes_of_scan {rev ts : List Token} {cs : List Char}
    (h : Token.scan rev cs = some ts) : ∃ us, ts = rev.reverse ++ us ∧ Lexes us cs := by
  fun_induction Token.scan rev cs with
  | case1 rev =>
    cases h
    exact ⟨[], by simp, .done⟩
  | case2 rev c cs hc ih =>
    obtain ⟨us, hts, hus⟩ := ih h
    exact ⟨us, hts, .space hc hus⟩
  | case3 rev c cs _ t rest hnext ih =>
    obtain ⟨us, rfl, hus⟩ := ih h
    obtain ⟨ds, hds, rfl, hends⟩ := next?_eq_some_iff.mp hnext
    exact ⟨t :: us, by simp, .token hds hends hus⟩
  | case4 => cases h

/-- The reader accepts exactly the texts that spell a row of tokens. -/
theorem Token.ofText?_eq_some_iff {cs : List Char} {ts : List Token} :
    Token.ofText? cs = some ts ↔ Lexes ts cs := by
  constructor
  · intro h
    obtain ⟨us, rfl, hus⟩ := lexes_of_scan h
    exact hus
  · intro h
    exact scan_of_lexes h []

end PathSieve.Json

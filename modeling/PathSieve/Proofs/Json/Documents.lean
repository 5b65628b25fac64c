/-
  Flat documents and the grammar.

  A flat document is a value of a particular form: an array or an object whose elements
  are `null` or integer literals (`IsFlat`). The reader of flat documents accepts exactly
  the texts that spell such a value with white space around it
  (`Flat.ofText?_eq_some_iff`): from the grammar to a row of tokens and from a row of
  tokens back to the grammar, each along the elements.
-/
import PathSieve.Json.Flat
import PathSieve.Proofs.Json.Tokens

namespace PathSieve.Json

/-- The value is the element of a flat document. -/
inductive IsScalar : Value → Scalar → Prop where
  | null : IsScalar .null .null
  | number {ds : List Char} (h : IsInt ds) : IsScalar (.number ds) (.number (ofDigits ds))

/-- The member has the key and, as its value, the element of a member of a flat document. -/
structure IsFlatMember (m : List Char × Value) (n : List Char × Scalar) : Prop where
  key : m.1 = n.1
  value : IsScalar m.2 n.2

/-- The value is the flat document. -/
inductive IsFlat : Value → Flat → Prop where
  | array {vs : List Value} {ss : List Scalar} (h : List.Forall₂ IsScalar vs ss) :
      IsFlat (.array vs) (.array ss)
  | object {ms : List (List Char × Value)} {ns : List (List Char × Scalar)}
      (h : List.Forall₂ IsFlatMember ms ns) : IsFlat (.object ms) (.object ns)

theorem IsScalar.spellsToken {v : Value} {s : Scalar} {cs : List Char} (hv : IsScalar v s)
    (h : Spells v cs) : SpellsToken s.token cs := by
  cases hv with
  | null => cases h; exact .null
  | number hds => cases h; exact .number hds

theorem exists_isScalar {s : Scalar} {cs : List Char} (h : SpellsToken s.token cs) :
    ∃ v, IsScalar v s ∧ Spells v cs := by
  cases s with
  | null => cases h; exact ⟨_, .null, .null⟩
  | number n => cases h with | number h => exact ⟨_, .number h, .number h.isNumber⟩

/-! ## From the grammar to tokens -/

theorem IsScalar.lexes {v : Value} {s : Scalar} {cs rest : List Char} {ts : List Token}
    (hv : IsScalar v s) (h : SpellsPadded v cs) (hstops : Stops rest) (hrest : Lexes ts rest) :
    Lexes (s.token :: ts) (cs ++ rest) := by
  cases h with
  | @mk _ w ds w' hw h hw' =>
    have hafter : Lexes ts (w' ++ rest) := hw'.lexes hrest
    rw [List.append_assoc, List.append_assoc]
    exact hw.lexes (.token (hv.spellsToken h) (fun _ _ => hw'.stops hstops) hafter)

/-- A mark may stand in front of anything. -/
theorem lexes_mark {t : Token} {c : Char} {ts : List Token} {cs : List Char}
    (ht : SpellsToken t [c]) (hc : c.isDigit = false) (h : Lexes ts cs) :
    Lexes (t :: ts) (c :: cs) := by
  refine .token ht (fun n hn => ?_) h
  subst hn
  cases ht with
  | number hds => exact absurd (hds.isDigit c List.mem_cons_self) (by simp [hc])

theorem lexes_elements {v : Value} {vs : List Value} {s : Scalar} {ss : List Scalar}
    {cs w : List Char} (hvs : List.Forall₂ IsScalar vs ss) (hv : IsScalar v s)
    (h : SpellsElements (v :: vs) cs) (hw : IsPadding w) :
    Lexes (s.token :: Flat.elementTokens ss) (cs ++ ']' :: w) := by
  induction hvs generalizing v s cs with
  | nil =>
    cases h with
    | last h =>
      have hclose : Lexes [.bracketClose] (']' :: w) :=
        lexes_mark .bracketClose rfl (by simpa using hw.lexes .done)
      exact hv.lexes h (stops_cons (by decide) w) hclose
    | more _ hs => cases hs
  | cons hv' _ ih =>
    cases h with
    | more h hs =>
      rw [List.append_assoc]
      exact hv.lexes h (stops_cons (by decide) _) (lexes_mark .comma rfl (ih hv' hs))

theorem IsFlatMember.lexes {m : List Char × Value} {n : List Char × Scalar}
    {cs rest : List Char} {ts : List Token} (hm : IsFlatMember m n) (h : SpellsMember m cs)
    (hstops : Stops rest) (hrest : Lexes ts rest) :
    Lexes (.text n.1 :: .colon :: n.2.token :: ts) (cs ++ rest) := by
  cases h with
  | @mk key v w ks w' ds hw hkey hw' h =>
    have hvalue := hm.value.lexes h hstops hrest
    have hcolon : Lexes (.colon :: n.2.token :: ts) (w' ++ ':' :: (ds ++ rest)) :=
      hw'.lexes (lexes_mark .colon rfl hvalue)
    have htext := hw.lexes (.token (.text hkey) (by simp [Token.EndsBefore]) hcolon)
    rw [← hm.key]
    simpa using htext

theorem lexes_members {m : List Char × Value} {ms : List (List Char × Value)}
    {n : List Char × Scalar} {ns : List (List Char × Scalar)} {cs w : List Char}
    (hms : List.Forall₂ IsFlatMember ms ns) (hm : IsFlatMember m n)
    (h : SpellsMembers (m :: ms) cs) (hw : IsPadding w) :
    Lexes (.text n.1 :: .colon :: n.2.token :: Flat.memberTokens ns) (cs ++ '\x7d' :: w) := by
  induction hms generalizing m n cs with
  | nil =>
    cases h with
    | last h =>
      have hclose : Lexes [.braceClose] ('\x7d' :: w) :=
        lexes_mark .braceClose rfl (by simpa using hw.lexes .done)
      exact hm.lexes h (stops_cons (by decide) w) hclose
    | more _ hs => cases hs
  | cons hm' _ ih =>
    cases h with
    | more h hs =>
      rw [List.append_assoc]
      exact hm.lexes h (stops_cons (by decide) _) (lexes_mark .comma rfl (ih hm' hs))

/-- The spelling of a flat document spells its tokens. -/
theorem lexes_document {v : Value} {d : Flat} {cs : List Char} (hv : IsFlat v d)
    (h : SpellsPadded v cs) : Lexes d.toTokens cs := by
  cases h with
  | @mk _ w ds w' hw h hw' =>
    rw [List.append_assoc]
    refine hw.lexes ?_
    have hend : Lexes [] w' := by simpa using hw'.lexes .done
    cases hv with
    | array hvs =>
      cases h with
      | emptyArray hpad =>
        cases hvs
        have hclose := hpad.lexes (lexes_mark .bracketClose rfl hend)
        simpa [Flat.toTokens, Flat.elementTokens] using lexes_mark .bracketOpen rfl hclose
      | array h =>
        cases hvs with
        | nil => cases h
        | cons hv hvs =>
          have helements := lexes_elements hvs hv h hw'
          simpa [Flat.toTokens, Flat.elementTokens] using
            lexes_mark .bracketOpen rfl helements
    | object hms =>
      cases h with
      | emptyObject hpad =>
        cases hms
        have hclose := hpad.lexes (lexes_mark .braceClose rfl hend)
        simpa [Flat.toTokens, Flat.memberTokens] using lexes_mark .braceOpen rfl hclose
      | object h =>
        cases hms with
        | nil => cases h
        | cons hm hms =>
          have hmembers := lexes_members hms hm h hw'
          simpa [Flat.toTokens, Flat.memberTokens] using lexes_mark .braceOpen rfl hmembers

/-! ## From tokens to the grammar -/

/-- A row that begins with an element and a further token begins with a spelling of the
    element, up to that token. -/
theorem exists_padded {s : Scalar} {t : Token} {ts : List Token} {cs : List Char}
    (h : Lexes (s.token :: t :: ts) cs) : ∃ v body mark rest, IsScalar v s ∧
      SpellsPadded v body ∧ SpellsToken t mark ∧ Lexes ts rest ∧ cs = body ++ (mark ++ rest) := by
  obtain ⟨w, ds, after, hw, hds, hafter, rfl⟩ := h.exists_token
  obtain ⟨w', mark, rest, hw', hmark, hrest, rfl⟩ := hafter.exists_token
  obtain ⟨v, hv, hspells⟩ := exists_isScalar hds
  exact ⟨v, w ++ ds ++ w', mark, rest, hv, .mk hw hspells hw', hmark, hrest, by simp⟩

theorem exists_elements {s : Scalar} {ss : List Scalar} {cs : List Char}
    (h : Lexes (s.token :: Flat.elementTokens ss) cs) : ∃ vs body w, IsPadding w ∧
      List.Forall₂ IsScalar vs (s :: ss) ∧ SpellsElements vs body ∧ cs = body ++ ']' :: w := by
  induction ss generalizing s cs with
  | nil =>
    obtain ⟨v, body, mark, w, hv, hbody, hmark, hw, rfl⟩ := exists_padded h
    cases hmark
    exact ⟨[v], body, w, hw.isPadding, .cons hv .nil, .last hbody, rfl⟩
  | cons s' ss ih =>
    obtain ⟨v, body, mark, rest, hv, hbody, hmark, hrest, rfl⟩ := exists_padded h
    cases hmark
    obtain ⟨vs, bodies, w, hw, hvs, hbodies, rfl⟩ := ih hrest
    cases hvs with
    | cons hv' hvs =>
      exact ⟨_, _, w, hw, .cons hv (.cons hv' hvs), .more hbody hbodies, by simp⟩

/-- The same for a member and a further token. -/
theorem exists_member {n : List Char × Scalar} {t : Token} {ts : List Token} {cs : List Char}
    (h : Lexes (.text n.1 :: .colon :: n.2.token :: t :: ts) cs) : ∃ m body mark rest,
      IsFlatMember m n ∧ SpellsMember m body ∧ SpellsToken t mark ∧ Lexes ts rest ∧
        cs = body ++ (mark ++ rest) := by
  obtain ⟨w, quoted, afterKey, hw, hquoted, hafterKey, rfl⟩ := h.exists_token
  obtain ⟨w', colon, afterColon, hw', hcolon, hafterColon, rfl⟩ := hafterKey.exists_token
  obtain ⟨v, body, mark, rest, hv, hbody, hmark, hrest, rfl⟩ := exists_padded hafterColon
  cases hcolon
  cases hquoted with
  | text hkey =>
    exact ⟨(n.1, v), _, mark, rest, ⟨rfl, hv⟩, .mk hw hkey hw' hbody, hmark, hrest, by simp⟩

theorem exists_members {n : List Char × Scalar} {ns : List (List Char × Scalar)}
    {cs : List Char} (h : Lexes (.text n.1 :: .colon :: n.2.token :: Flat.memberTokens ns) cs) :
    ∃ ms body w, IsPadding w ∧ List.Forall₂ IsFlatMember ms (n :: ns) ∧
      SpellsMembers ms body ∧ cs = body ++ '\x7d' :: w := by
  induction ns generalizing n cs with
  | nil =>
    obtain ⟨m, body, mark, w, hm, hbody, hmark, hw, rfl⟩ := exists_member h
    cases hmark
    exact ⟨[m], body, w, hw.isPadding, .cons hm .nil, .last hbody, rfl⟩
  | cons n' ns ih =>
    obtain ⟨m, body, mark, rest, hm, hbody, hmark, hrest, rfl⟩ := exists_member h
    cases hmark
    obtain ⟨ms, bodies, w, hw, hms, hbodies, rfl⟩ := ih hrest
    cases hms with
    | cons hm' hms =>
      exact ⟨_, _, w, hw, .cons hm (.cons hm' hms), .more hbody hbodies, by simp⟩

/-- A text that spells the tokens of a flat document is a spelling of it. -/
theorem exists_document {d : Flat} {cs : List Char} (h : Lexes d.toTokens cs) :
    ∃ v, IsFlat v d ∧ SpellsPadded v cs := by
  cases d with
  | object ns =>
    obtain ⟨w, mark, inside, hw, hmark, hinside, rfl⟩ := h.exists_token
    cases hmark
    cases ns with
    | nil =>
      obtain ⟨w', mark, rest, hw', hmark, hrest, rfl⟩ := Lexes.exists_token hinside
      cases hmark
      refine ⟨.object [], .object .nil, ?_⟩
      simpa using SpellsPadded.mk hw (.emptyObject hw') hrest.isPadding
    | cons n ns =>
      obtain ⟨ms, body, w', hw', hms, hbody, rfl⟩ := exists_members hinside
      refine ⟨.object ms, .object hms, ?_⟩
      simpa using SpellsPadded.mk hw (.object hbody) hw'
  | array ss =>
    obtain ⟨w, mark, inside, hw, hmark, hinside, rfl⟩ := h.exists_token
    cases hmark
    cases ss with
    | nil =>
      obtain ⟨w', mark, rest, hw', hmark, hrest, rfl⟩ := Lexes.exists_token hinside
      cases hmark
      refine ⟨.array [], .array .nil, ?_⟩
      simpa using SpellsPadded.mk hw (.emptyArray hw') hrest.isPadding
    | cons s ss =>
      obtain ⟨vs, body, w', hw', hvs, hbody, rfl⟩ := exists_elements hinside
      refine ⟨.array vs, .array hvs, ?_⟩
      simpa using SpellsPadded.mk hw (.array hbody) hw'

/-- The reader accepts exactly the spellings of flat documents. -/
theorem Flat.ofText?_eq_some_iff {text : String} {d : Flat} :
    Flat.ofText? text = some d ↔ ∃ v, IsFlat v d ∧ SpellsPadded v text.toList := by
  rw [Flat.ofText?, Option.bind_eq_some_iff]
  simp only [Token.ofText?_eq_some_iff, Flat.ofTokens?_eq_some_iff]
  constructor
  · rintro ⟨ts, hts, rfl⟩
    exact exists_document hts
  · rintro ⟨v, hv, h⟩
    exact ⟨_, lexes_document hv h, rfl⟩

end PathSieve.Json

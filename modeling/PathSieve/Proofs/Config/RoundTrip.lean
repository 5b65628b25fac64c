/-
  Written configurations, and the lenient way in.

  The compact form of a configuration is an object that describes it (`writes_render`), so
  parsing gives the configuration back, or says what is not valid about it.

  A text that writes a configuration is an array or an object with white space around it.
  What stands between begins and ends with a bracket or a brace, so blanks of any kind can
  be put around the whole and taken off again without touching it (`Writes.exists_strips`).
  Hence the lenient way in accepts the texts that can be parsed with blanks around them,
  and nothing else.
-/
import PathSieve.Config.Printer
import PathSieve.Proofs.Config.Schema
import PathSieve.Proofs.Text.Stripping

namespace PathSieve.Config

open PathSieve.Json

/-! ## The compact form -/

theorem ofDigits_eq (ds : List Char) : ofDigits ds = Nat.ofDigitChars 10 ds 0 := by
  simp only [ofDigits, Nat.ofDigitChars, Nat.mul_comm]

theorem ofDigits_toDigits (n : Nat) : ofDigits (Nat.toDigits 10 n) = n := by
  rw [ofDigits_eq, Nat.ofDigitChars_toDigits (by decide) (by decide)]

/-- Decimals have no leading zero. -/
theorem toDigits_eq_of_head {n : Nat} (h : (Nat.toDigits 10 n).head? = some '0') : n = 0 := by
  induction n using Nat.strongRecOn with
  | ind n ih =>
    by_cases hn : n < 10
    · rw [Nat.toDigits_of_lt_base hn, List.head?_cons, Option.some.injEq] at h
      have hdigit : ∀ m < 10, Nat.digitChar m = '0' → m = 0 := by decide
      exact hdigit n hn h
    · have hquot : n / 10 ≠ 0 := by omega
      rw [Nat.toDigits_of_base_le (by decide) (by omega), List.head?_append,
        List.head?_eq_some_head Nat.toDigits_ne_nil, Option.some_or,
        ← List.head?_eq_some_head] at h
      exact absurd (ih (n / 10) (by omega) h) hquot

theorem isInt_toDigits (n : Nat) : IsInt (Nat.toDigits 10 n) := by
  refine ⟨⟨Nat.toDigits_ne_nil, fun d hd => ?_⟩, fun h => ?_⟩
  · exact Nat.isDigit_of_mem_toDigits (by decide) (by decide) hd
  · rw [toDigits_eq_of_head h]
    rfl

/-- The spelling of an element that is as short as can be. -/
def spellingOf : Scalar → List Char
  | .null => ['n', 'u', 'l', 'l']
  | .number n => Nat.toDigits 10 n

theorem spellsToken_spellingOf (s : Scalar) : SpellsToken s.token (spellingOf s) := by
  cases s with
  | null => exact .null
  | number n =>
    have h := SpellsToken.number (isInt_toDigits n)
    rwa [ofDigits_toDigits] at h

theorem spellsText_of_plain {t : List Char}
    (h : ∀ c ∈ t, 0x20 ≤ c.toNat ∧ c ≠ '"' ∧ c ≠ '\\') : SpellsText t t := by
  induction t with
  | nil => exact .nil
  | cons c t ih =>
    obtain ⟨⟨hc, hquote, hbackslash⟩, ht⟩ := List.forall_mem_cons.mp h
    exact .cons (.plain hc hquote hbackslash) (ih ht)

theorem spellsText_key (f : Field) : SpellsText f.key.toList f.key.toList := by
  have hplain : f.key.toList.all (fun c => 0x20 ≤ c.toNat && c != '"' && c != '\\') = true := by
    cases f <;> decide
  refine spellsText_of_plain fun c hc => ?_
  simpa [and_assoc] using List.all_eq_true.mp hplain c hc

/-- A member of the compact form. -/
def memberOf (c : Config) (f : Field) : List Char :=
  '"' :: f.key.toList ++ '"' :: ':' :: spellingOf (f.element c)

theorem exists_memberOf (c : Config) (f : Field) :
    ∃ v, IsScalar v (f.element c) ∧ SpellsMember (f.key.toList, v) (memberOf c f) := by
  obtain ⟨v, hv, hspells⟩ := exists_isScalar (spellsToken_spellingOf (f.element c))
  have hvalue := SpellsPadded.mk isPadding_nil hspells isPadding_nil
  have hmember := SpellsMember.mk isPadding_nil (spellsText_key f) isPadding_nil hvalue
  exact ⟨v, hv, by simpa [memberOf] using hmember⟩

theorem toList_render (c : Config) :
    c.render.toList = '\x7b' :: (memberOf c .initialPages ++ ',' :: (memberOf c .maxPages ++
      ',' :: memberOf c .parallelism)) ++ ['\x7d'] := by
  have hopen : "\x7b\"".toList = ['\x7b', '"'] := by decide
  have hcolon : "\":".toList = ['"', ':'] := by decide
  have hcomma : ",\"".toList = [',', '"'] := by decide
  have hclose : "\x7d".toList = ['\x7d'] := by decide
  have hnumber : ∀ n : Nat, (toString n).toList = spellingOf (.number n) :=
    fun n => Nat.toList_repr
  unfold render
  extract_lets workers
  have hworkers : workers.toList = spellingOf (workersElement c.parallelism) := by
    cases h : c.parallelism with
    | none => simp only [workers, h]; decide
    | some n => simp only [workers, h, hnumber, workersElement]
  simp only [memberOf, Field.element, hworkers, hnumber, hopen, hcolon, hcomma, hclose,
    String.toList_append, List.cons_append, List.nil_append, List.append_assoc]

/-- The compact form of a configuration writes it. -/
theorem writes_render (c : Config) : Writes c.render c := by
  choose v hv hmember using exists_memberOf c
  have hmembers := SpellsMembers.more (hmember .initialPages)
    (.more (hmember .maxPages) (.last (hmember .parallelism)))
  refine ⟨_, ?_, .mk (.object (Field.all.map fun f => (f, v f))) ?_ ?_ ?_⟩
  · rw [toList_render]
    simpa [Field.all] using SpellsPadded.mk isPadding_nil (.object hmembers) isPadding_nil
  · simp [Field.all]
  · simpa [Field.all] using ⟨hv .initialPages, hv .maxPages, hv .parallelism⟩
  · intro f hf
    cases f <;> simp [Field.all] at hf

/-! ## Blanks around a text -/

theorem isBlank_of_isSpace {c : Char} (h : isSpace c = true) : Text.isBlank c = true := by
  simp only [isSpace, Bool.or_eq_true, decide_eq_true_eq] at h
  rcases h with ((rfl | rfl) | rfl) | rfl <;> decide

/-- Arrays and objects begin and end with a mark that is not blank. -/
theorem Assigns.bounded {v : Value} {as : List (Field × Value)} {cs : List Char}
    (h : Assigns v as) (hspells : Spells v cs) : (∀ c ∈ cs.head?, Text.isBlank c = false) ∧
      ∀ c ∈ cs.getLast?, Text.isBlank c = false := by
  have hbrackets : Text.isBlank '[' = false ∧ Text.isBlank ']' = false := by decide
  have hbraces : Text.isBlank '\x7b' = false ∧ Text.isBlank '\x7d' = false := by decide
  cases h with
  | object as =>
    generalize as.map _ = ms at hspells
    cases hspells <;> simpa [List.getLast?_cons] using hbraces
  | array => cases hspells <;> simpa [List.getLast?_cons] using hbrackets

/-- A text that writes a configuration still does when the blanks around it are taken off. -/
theorem Writes.exists_strips {text : String} {c : Config} (h : Writes text c) :
    ∃ core : String, Text.Strips text.toList core.toList ∧ Writes core c := by
  obtain ⟨v, hpadded, hdescribes⟩ := h
  obtain ⟨hassigns, _, _, _⟩ := id hdescribes
  generalize text.toList = cs at hpadded
  cases hpadded with
  | @mk _ w core w' hw hspells hw' =>
    obtain ⟨hfirst, hlast⟩ := hassigns.bounded hspells
    refine ⟨String.ofList core, ?_, v, ?_, hdescribes⟩
    · rw [String.toList_ofList]
      exact .mk (fun c hc => isBlank_of_isSpace (hw c hc))
        (fun c hc => isBlank_of_isSpace (hw' c hc)) hfirst hlast
    · rw [String.toList_ofList]
      simpa using SpellsPadded.mk isPadding_nil hspells isPadding_nil

theorem ofText?_of_strips {text core : String} (h : Text.Strips text.toList core.toList) :
    ofText? text = (parse core).toOption := by
  rw [ofText?, Text.trim_of_strips h, String.ofList_toList]

theorem toOption_eq_some_iff {ε α : Type} {r : Except ε α} {a : α} :
    r.toOption = some a ↔ r = .ok a := by
  cases r <;> simp [Except.toOption]

/-- The lenient way in accepts a text when what stands between the blanks can be parsed. -/
theorem ofText?_eq_some_iff {text : String} {c : Config} :
    ofText? text = some c ↔
      ∃ core : String, Text.Strips text.toList core.toList ∧ parse core = .ok c := by
  constructor
  · intro h
    refine ⟨String.ofList (Text.trim text.toList), ?_, toOption_eq_some_iff.mp h⟩
    rw [String.toList_ofList]
    exact Text.strips_trim _
  · rintro ⟨core, hstrips, hparse⟩
    rw [ofText?_of_strips hstrips, toOption_eq_some_iff.mpr hparse]

/-- The two ways in agree. The compact form of a configuration is parsed to it when it is
    usable, and refused as not valid when it is not. What can be parsed is accepted by the
    lenient way in with any blanks around it; and whatever that accepts is usable, and can
    be parsed when the blanks around it are taken off. -/
theorem loaders_agree :
    (∀ c : Config, (c.Valid → parse c.render = .ok c) ∧
      (¬ c.Valid → ∃ reason, parse c.render = .error (.config (.validation reason)))) ∧
    (∀ (s before after : String) (c : Config), parse s = .ok c →
      (∀ ch ∈ before.toList, Text.isBlank ch = true) →
      (∀ ch ∈ after.toList, Text.isBlank ch = true) → ofText? (before ++ s ++ after) = some c) ∧
    (∀ (t : String) (c : Config), ofText? t = some c → c.Valid ∧
      ∃ s : String, Text.Strips t.toList s.toList ∧ parse s = .ok c) := by
  refine ⟨fun c => ⟨?_, ?_⟩, fun s before after c hparse hbefore hafter => ?_, fun t c h => ?_⟩
  · exact parse_of_valid (writes_render c)
  · exact parse_of_not_valid (writes_render c)
  · obtain ⟨hwrites, hvalid⟩ := parse_eq_ok_iff.mp hparse
    obtain ⟨core, hstrips, hcore⟩ := hwrites.exists_strips
    refine ofText?_eq_some_iff.mpr ⟨core, ?_, parse_of_valid hcore hvalid⟩
    rw [String.toList_append, String.toList_append]
    exact hstrips.pad hbefore hafter
  · obtain ⟨s, hstrips, hparse⟩ := ofText?_eq_some_iff.mp h
    exact ⟨(parse_eq_ok_iff.mp hparse).2, s, hstrips, hparse⟩

/-- The compact forms of the largest configuration and of one without workers; and an array
    whose own ends are white space, between blanks that no JSON text may hold. -/
theorem loaders_agree_array :
    (Valid ⟨1, 65536, some 18446744073709551615⟩ ∧
      parse (render ⟨1, 65536, some 18446744073709551615⟩) =
        .ok ⟨1, 65536, some 18446744073709551615⟩) ∧
    (¬ Valid ⟨1, 4096, some 0⟩ ∧
      ∃ reason, parse (render ⟨1, 4096, some 0⟩) = .error (.config (.validation reason))) ∧
    (parse "\n[ 2,64]\t" = .ok ⟨2, 64, none⟩ ∧
      (∀ ch ∈ "\u3000 ".toList, Text.isBlank ch = true) ∧
      (∀ ch ∈ "\u2028\u0085".toList, Text.isBlank ch = true) ∧
      ofText? ("\u3000 " ++ "\n[ 2,64]\t" ++ "\u2028\u0085") = some ⟨2, 64, none⟩) ∧
    Valid ⟨2, 64, none⟩ ∧
      ∃ s : String, Text.Strips ("\u3000 " ++ "\n[ 2,64]\t" ++ "\u2028\u0085").toList s.toList ∧
        parse s = .ok ⟨2, 64, none⟩ := by
  obtain ⟨hround, hpad, hstrip⟩ := loaders_agree
  have hvalid : Valid ⟨1, 65536, some 18446744073709551615⟩ :=
    (violation?_eq_none_iff _).mp (by decide)
  have hinvalid : ¬ Valid ⟨1, 4096, some 0⟩ := fun h => h.parallelism_ne_zero rfl
  have hparse : parse "\n[ 2,64]\t" = .ok ⟨2, 64, none⟩ :=
    toOption_eq_some_iff.mp (by decide +kernel)
  have hbefore : ∀ ch ∈ "\u3000 ".toList, Text.isBlank ch = true :=
    List.all_eq_true.mp (by decide)
  have hafter : ∀ ch ∈ "\u2028\u0085".toList, Text.isBlank ch = true :=
    List.all_eq_true.mp (by decide)
  have hloaded := hpad _ _ _ _ hparse hbefore hafter
  exact ⟨⟨hvalid, (hround _).1 hvalid⟩, ⟨hinvalid, (hround _).2 hinvalid⟩,
    ⟨hparse, hbefore, hafter, hloaded⟩, hstrip _ _ hloaded⟩

end PathSieve.Config

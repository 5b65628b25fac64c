/-
  What a configuration text has to be.

  The schema is stated on JSON values and apart from any reader: an object gives values to
  the fields that its keys name, an array to the fields in their order (`Assigns`); no
  field gets two values, a given value is the field's, and a field without one has its
  default (`Describes`). A text writes a configuration when it spells such a value.

  Reading a text gives a configuration exactly when the text writes it
  (`read?_eq_some_iff`). So of a text that writes no configuration parsing says that it
  cannot be read, and of one that writes an unusable configuration that it is not valid
  (`parse_classifies`).
-/
import PathSieve.Config.Reader
import PathSieve.Proofs.Json.Documents
import Mathlib.Data.List.Forall2

namespace PathSieve.Config

open PathSieve.Json

/-! ## Fields -/

/-- The element that stands for a number of workers, which may be missing. -/
def workersElement : Option UInt64 → Scalar
  | none => .null
  | some n => .number n.toNat

/-- The element that stands for the value of a field. Page counts are numbers of 32 bits;
    the workers are `null` or a number of 64 bits. -/
def Field.element (c : Config) : Field → Scalar
  | .initialPages => .number c.initialPages.toNat
  | .maxPages => .number c.maxPages.toNat
  | .parallelism => workersElement c.parallelism

theorem workersElement_inj {p q : Option UInt64} : workersElement p = workersElement q ↔ p = q := by
  cases p <;> cases q <;> simp [workersElement, UInt64.toNat_inj]

/-- The fields of a configuration determine it. -/
theorem eq_of_element_eq {c c' : Config} (h : ∀ f : Field, f.element c = f.element c') :
    c = c' := by
  have hinitial := h .initialPages
  have hmax := h .maxPages
  have hworkers := h .parallelism
  simp only [Field.element, Scalar.number.injEq, UInt32.toNat_inj, workersElement_inj]
    at hinitial hmax hworkers
  cases c
  cases c'
  simp_all

/-- A configuration with one field taken from another. -/
def Field.copy (f : Field) (c c' : Config) : Config :=
  match f with
  | .initialPages => { c with initialPages := c'.initialPages }
  | .maxPages => { c with maxPages := c'.maxPages }
  | .parallelism => { c with parallelism := c'.parallelism }

theorem element_copy_self (f : Field) (c c' : Config) :
    f.element (f.copy c c') = f.element c' := by
  cases f <;> rfl

theorem element_copy_of_ne {f g : Field} (h : g ≠ f) (c c' : Config) :
    g.element (f.copy c c') = g.element c := by
  cases f <;> cases g <;> first | rfl | exact absurd rfl h

theorem word32?_eq_some_iff {s : Scalar} {n : UInt32} :
    word32? s = some n ↔ s = .number n.toNat := by
  cases s with
  | null => simp [word32?]
  | number m =>
    simp only [word32?, Option.ite_none_right_eq_some, Option.some.injEq, Scalar.number.injEq]
    constructor
    · rintro ⟨hm, rfl⟩
      exact (UInt32.toNat_ofNat_of_lt' hm).symm
    · rintro rfl
      exact ⟨n.toNat_lt, UInt32.ofNat_toNat⟩

theorem word64?_eq_some_iff {s : Scalar} {p : Option UInt64} :
    word64? s = some p ↔ s = workersElement p := by
  cases s with
  | null => cases p <;> simp [word64?, workersElement]
  | number m =>
    cases p with
    | none => simp [word64?, workersElement]
    | some n =>
      simp only [word64?, workersElement, Option.ite_none_right_eq_some, Option.some.injEq,
        Scalar.number.injEq]
      constructor
      · rintro ⟨hm, rfl⟩
        exact (UInt64.toNat_ofNat_of_lt' hm).symm
      · rintro rfl
        exact ⟨n.toNat_lt, UInt64.ofNat_toNat⟩

/-- Setting a field changes it to what is given, and no other field. -/
theorem set?_eq_some_iff {c c' : Config} {f : Field} {s : Scalar} :
    c.set? (f, s) = some c' ↔ s = f.element c' ∧ c' = f.copy c c' := by
  cases f with
  | initialPages =>
    simp only [set?, Option.map_eq_some_iff, word32?_eq_some_iff]
    exact ⟨by rintro ⟨n, rfl, rfl⟩; exact ⟨rfl, rfl⟩, fun ⟨hs, hc⟩ => ⟨_, hs, hc.symm⟩⟩
  | maxPages =>
    simp only [set?, Option.map_eq_some_iff, word32?_eq_some_iff]
    exact ⟨by rintro ⟨n, rfl, rfl⟩; exact ⟨rfl, rfl⟩, fun ⟨hs, hc⟩ => ⟨_, hs, hc.symm⟩⟩
  | parallelism =>
    simp only [set?, Option.map_eq_some_iff, word64?_eq_some_iff]
    exact ⟨by rintro ⟨p, rfl, rfl⟩; exact ⟨rfl, rfl⟩, fun ⟨hs, hc⟩ => ⟨_, hs, hc.symm⟩⟩

theorem eq_copy_iff {f : Field} {c c' : Config} :
    c' = f.copy c c' ↔ ∀ g : Field, g ≠ f → g.element c' = g.element c := by
  constructor
  · intro h g hg
    rw [h, element_copy_of_ne hg]
  · intro h
    refine eq_of_element_eq fun g => ?_
    by_cases hg : g = f
    · rw [hg, element_copy_self]
    · rw [h g hg, element_copy_of_ne hg]

/-- Setting fields one after the other, none of them twice, gives each its element and
    leaves the rest alone. -/
theorem foldlM_set?_eq_some_iff {as : List (Field × Scalar)} (hnodup : (as.map Prod.fst).Nodup)
    {c c' : Config} :
    as.foldlM set? c = some c' ↔ (∀ a ∈ as, a.2 = a.1.element c') ∧
      ∀ f, f ∉ as.map Prod.fst → f.element c' = f.element c := by
  induction as generalizing c with
  | nil =>
    simp only [List.foldlM_nil, Option.pure_def, Option.some.injEq, List.not_mem_nil,
      List.map_nil, not_false_eq_true, forall_true_left, false_imp_iff, implies_true, true_and]
    exact ⟨fun h f => h ▸ rfl, fun h => eq_of_element_eq fun f => (h f).symm⟩
  | cons a as ih =>
    obtain ⟨f, s⟩ := a
    rw [List.map_cons, List.nodup_cons] at hnodup
    obtain ⟨hf, hnodup⟩ := hnodup
    simp only [List.foldlM_cons, Option.bind_eq_bind, Option.bind_eq_some_iff, ih hnodup,
      set?_eq_some_iff, List.map_cons, List.mem_cons, forall_eq_or_imp, not_or]
    constructor
    · rintro ⟨c₁, ⟨rfl, hcopy⟩, hgiven, hmissing⟩
      refine ⟨⟨(hmissing f hf).symm, hgiven⟩, fun g ⟨hg, hmem⟩ => ?_⟩
      rw [hmissing g hmem, eq_copy_iff.mp hcopy g hg]
    · rintro ⟨⟨hs, hgiven⟩, hmissing⟩
      refine ⟨f.copy c c', ⟨by rw [element_copy_self, hs], ?_⟩, hgiven, fun g hg => ?_⟩
      · exact eq_copy_iff.mpr fun g hg => element_copy_of_ne hg c c'
      · by_cases hgf : g = f
        · rw [hgf, element_copy_self]
        · rw [element_copy_of_ne hgf, hmissing g ⟨hgf, hg⟩]

/-! ## Values that describe a configuration -/

/-- The fields that a value is about, with the value for each. -/
inductive Assigns : Value → List (Field × Value) → Prop where
  /-- The keys of an object name fields. -/
  | object (as : List (Field × Value)) :
      Assigns (.object (as.map fun a => (a.1.key.toList, a.2))) as
  /-- An array gives the fields in their order, and may leave out the last ones. -/
  | array {vs : List Value} (h : vs.length ≤ Field.all.length) :
      Assigns (.array vs) (Field.all.zip vs)

/-- The value describes the configuration. -/
inductive Describes (v : Value) (c : Config) : Prop where
  | mk {as : List (Field × Value)} (hassigns : Assigns v as)
      (hnodup : (as.map Prod.fst).Nodup)
      (hgiven : ∀ a ∈ as, IsScalar a.2 (a.1.element c))
      (hmissing : ∀ f : Field, f ∉ as.map Prod.fst → f.element c = f.element {})

/-- The text is a JSON value that describes the configuration, with nothing but white space
    around it. -/
def Writes (text : String) (c : Config) : Prop :=
  ∃ v, SpellsPadded v text.toList ∧ Describes v c

/-- An assignment of a value and one of the element that the value is. -/
structure SameAssignment (a : Field × Value) (b : Field × Scalar) : Prop where
  field : a.1 = b.1
  value : IsScalar a.2 b.2

theorem isScalar_unique {v : Value} {s s' : Scalar} (h : IsScalar v s) (h' : IsScalar v s') :
    s = s' := by
  cases h <;> cases h' <;> rfl

theorem ofKey?_eq_some_iff {cs : List Char} {f : Field} :
    Field.ofKey? cs = some f ↔ cs = f.key.toList := by
  constructor
  · intro h
    have := List.find?_some h
    exact (beq_iff_eq.mp this).symm
  · rintro rfl
    exact Field.ofKey?_key f

theorem ofAssignments?_eq_some_iff {as : List (Field × Value)} {bs : List (Field × Scalar)}
    (h : List.Forall₂ SameAssignment as bs) {c : Config} :
    ofAssignments? bs = some c ↔ (as.map Prod.fst).Nodup ∧
      (∀ a ∈ as, IsScalar a.2 (a.1.element c)) ∧
        ∀ f : Field, f ∉ as.map Prod.fst → f.element c = f.element {} := by
  have hfields : as.map Prod.fst = bs.map Prod.fst := by
    induction h with
    | nil => rfl
    | cons hab _ ih => simp [hab.field, ih]
  have hgiven : (∀ a ∈ as, IsScalar a.2 (a.1.element c)) ↔ ∀ b ∈ bs, b.2 = b.1.element c := by
    clear hfields
    induction h with
    | nil => simp
    | @cons a b _ _ hab _ ih =>
      have hhead : IsScalar a.2 (a.1.element c) ↔ b.2 = b.1.element c := by
        rw [hab.field]
        exact ⟨isScalar_unique hab.value, fun heq => heq ▸ hab.value⟩
      simp only [List.forall_mem_cons, hhead, ih]
  rw [hfields, hgiven, ofAssignments?]
  split
  · next hnodup => simp [hnodup, foldlM_set?_eq_some_iff hnodup]
  · next hnodup => simp [hnodup]

theorem exists_forall₂ {α β : Type} {R : α → β → Prop} {as : List α}
    (h : ∀ a ∈ as, ∃ b, R a b) : ∃ bs, List.Forall₂ R as bs := by
  induction as with
  | nil => exact ⟨[], .nil⟩
  | cons a as ih =>
    obtain ⟨hhead, htail⟩ := List.forall_mem_cons.mp h
    obtain ⟨b, hb⟩ := hhead
    obtain ⟨bs, hbs⟩ := ih htail
    exact ⟨b :: bs, .cons hb hbs⟩

theorem forall₂_zip_fields {vs : List Value} {ss : List Scalar} (h : List.Forall₂ IsScalar vs ss)
    (fs : List Field) : List.Forall₂ SameAssignment (fs.zip vs) (fs.zip ss) := by
  induction h generalizing fs with
  | nil => simp
  | cons hv _ ih =>
    cases fs with
    | nil => simp
    | cons f fs => exact .cons ⟨rfl, hv⟩ (ih fs)

/-- An object is about fields exactly when its keys name them. -/
theorem assignments?_object {ns : List (List Char × Scalar)} {bs : List (Field × Scalar)} :
    assignments? (.object ns) = some bs ↔ ns = bs.map fun b => (b.1.key.toList, b.2) := by
  induction ns generalizing bs with
  | nil => cases bs <;> simp [assignments?]
  | cons n ns ih =>
    simp only [assignments?, List.mapM_cons, Option.bind_eq_bind, Option.bind_eq_some_iff,
      Option.map_eq_some_iff, ofKey?_eq_some_iff, Option.pure_def, Option.some.injEq] at ih ⊢
    constructor
    · rintro ⟨b, ⟨f, hf, rfl⟩, bs, hbs, rfl⟩
      rw [List.map_cons, ← ih.mp hbs, ← hf]
    · intro h
      cases bs with
      | nil => simp at h
      | cons b bs =>
        rw [List.map_cons, List.cons.injEq] at h
        obtain ⟨rfl, hns⟩ := h
        exact ⟨b, ⟨b.1, rfl, rfl⟩, bs, ih.mpr hns, rfl⟩

theorem exists_named {ms : List (List Char × Value)} {bs : List (Field × Scalar)}
    (h : List.Forall₂ (fun m b => IsFlatMember m (b.1.key.toList, b.2)) ms bs) :
    ∃ as : List (Field × Value), ms = as.map (fun a => (a.1.key.toList, a.2)) ∧
      List.Forall₂ SameAssignment as bs := by
  induction h with
  | nil => exact ⟨[], rfl, .nil⟩
  | @cons m b _ _ hm _ ih =>
    obtain ⟨as, rfl, has⟩ := ih
    have hhead : m = (b.1.key.toList, m.2) := Prod.ext hm.key rfl
    exact ⟨(b.1, m.2) :: as, congrArg (· :: _) hhead, .cons ⟨rfl, hm.value⟩ has⟩

/-- The assignments of a flat document are those of its value. -/
theorem exists_assigns {v : Value} {d : Flat} {bs : List (Field × Scalar)} (hv : IsFlat v d)
    (h : assignments? d = some bs) :
    ∃ as, Assigns v as ∧ List.Forall₂ SameAssignment as bs := by
  cases hv with
  | @array vs ss hvs =>
    simp only [assignments?, Option.ite_none_right_eq_some, Option.some.injEq] at h
    obtain ⟨hlen, rfl⟩ := h
    exact ⟨_, .array (hvs.length_eq ▸ hlen), forall₂_zip_fields hvs Field.all⟩
  | @object ms ns hms =>
    obtain rfl := assignments?_object.mp h
    obtain ⟨as, rfl, has⟩ := exists_named (List.forall₂_map_right_iff.mp hms)
    exact ⟨as, .object as, has⟩

/-- A value that assigns elements to fields is a flat document with these assignments. -/
theorem exists_isFlat {v : Value} {as : List (Field × Value)} (hv : Assigns v as)
    (h : ∀ a ∈ as, ∃ s, IsScalar a.2 s) :
    ∃ d bs, IsFlat v d ∧ assignments? d = some bs ∧ List.Forall₂ SameAssignment as bs := by
  cases hv with
  | object as =>
    obtain ⟨bs, hbs⟩ : ∃ bs, List.Forall₂ SameAssignment as bs :=
      exists_forall₂ fun a ha =>
        let ⟨s, hs⟩ := h a ha
        ⟨(a.1, s), rfl, hs⟩
    refine ⟨_, bs, .object ?_, assignments?_object.mpr rfl, hbs⟩
    rw [List.forall₂_map_left_iff, List.forall₂_map_right_iff]
    exact hbs.imp fun a b hab => ⟨by rw [hab.field], hab.value⟩
  | @array vs hlen =>
    obtain ⟨ss, hss⟩ : ∃ ss, List.Forall₂ IsScalar vs ss := by
      refine exists_forall₂ fun v hv => ?_
      rw [← List.map_snd_zip hlen] at hv
      obtain ⟨a, ha, rfl⟩ := List.mem_map.mp hv
      exact h a ha
    refine ⟨_, _, .array hss, ?_, forall₂_zip_fields hss Field.all⟩
    rw [assignments?, if_pos (hss.length_eq ▸ hlen)]

/-- Reading a text gives a configuration exactly when the text writes it. -/
theorem read?_eq_some_iff {text : String} {c : Config} : read? text = some c ↔ Writes text c := by
  simp only [read?, Option.bind_eq_bind, Option.bind_eq_some_iff, Flat.ofText?_eq_some_iff]
  constructor
  · rintro ⟨d, ⟨v, hv, hspells⟩, bs, hbs, hc⟩
    obtain ⟨as, has, hsame⟩ := exists_assigns hv hbs
    obtain ⟨hnodup, hgiven, hmissing⟩ := (ofAssignments?_eq_some_iff hsame).mp hc
    exact ⟨v, hspells, .mk has hnodup hgiven hmissing⟩
  · rintro ⟨v, hspells, ⟨has, hnodup, hgiven, hmissing⟩⟩
    obtain ⟨d, bs, hv, hbs, hsame⟩ := exists_isFlat has fun a ha => ⟨_, hgiven a ha⟩
    exact ⟨d, ⟨v, hv, hspells⟩, bs, hbs,
      (ofAssignments?_eq_some_iff hsame).mpr ⟨hnodup, hgiven, hmissing⟩⟩

/-- A text writes one configuration at most. -/
theorem Writes.unique {text : String} {c c' : Config} (h : Writes text c)
    (h' : Writes text c') : c = c' := by
  rw [← read?_eq_some_iff] at h h'
  exact Option.some.inj (h.symm.trans h')

/-! ## Parsing -/

theorem parse_of_not_writes {text : String} (h : ¬ ∃ c, Writes text c) :
    ∃ reason, parse text = .error (.config (.parse reason)) := by
  have hread : read? text = none :=
    Option.eq_none_iff_forall_ne_some.mpr fun c hc => h ⟨c, read?_eq_some_iff.mp hc⟩
  exact ⟨_, by rw [parse, hread]⟩

theorem parse_of_writes {text : String} {c : Config} (h : Writes text c) :
    parse text = c.check.map fun _ => c := by
  rw [parse, read?_eq_some_iff.mpr h]

theorem parse_of_valid {text : String} {c : Config} (h : Writes text c) (hc : c.Valid) :
    parse text = .ok c := by
  rw [parse_of_writes h, (check_eq_ok_iff c).mpr hc]
  rfl

theorem parse_of_not_valid {text : String} {c : Config} (h : Writes text c) (hc : ¬ c.Valid) :
    ∃ reason, parse text = .error (.config (.validation reason)) := by
  obtain ⟨reason, hcheck⟩ := check_eq_error c hc
  exact ⟨reason, by rw [parse_of_writes h, hcheck]; rfl⟩

theorem parse_eq_ok_iff {text : String} {c : Config} :
    parse text = .ok c ↔ Writes text c ∧ c.Valid := by
  constructor
  · intro h
    by_cases hw : ∃ c', Writes text c'
    · obtain ⟨c', hw⟩ := hw
      by_cases hvalid : c'.Valid
      · rw [parse_of_valid hw hvalid, Except.ok.injEq] at h
        exact h ▸ ⟨hw, hvalid⟩
      · obtain ⟨reason, hreason⟩ := parse_of_not_valid hw hvalid
        rw [hreason] at h
        cases h
    · obtain ⟨reason, hreason⟩ := parse_of_not_writes hw
      rw [hreason] at h
      cases h
  · rintro ⟨hw, hvalid⟩
    exact parse_of_valid hw hvalid

/-- Parsing accepts exactly the texts that write a usable configuration; it calls invalid
    exactly those that write another one, and unreadable exactly those that write none. -/
theorem parse_classifies (text : String) :
    (∀ c, parse text = .ok c ↔ Writes text c ∧ c.Valid) ∧
      ((∃ reason, parse text = .error (.config (.validation reason))) ↔
        ∃ c, Writes text c ∧ ¬ c.Valid) ∧
      ((∃ reason, parse text = .error (.config (.parse reason))) ↔ ¬ ∃ c, Writes text c) := by
  refine ⟨fun c => parse_eq_ok_iff, ⟨?_, ?_⟩, ⟨?_, parse_of_not_writes⟩⟩
  · rintro ⟨reason, h⟩
    by_cases hw : ∃ c, Writes text c
    · obtain ⟨c, hw⟩ := hw
      refine ⟨c, hw, fun hvalid => ?_⟩
      rw [parse_of_valid hw hvalid] at h
      cases h
    · obtain ⟨reason', h'⟩ := parse_of_not_writes hw
      rw [h'] at h
      cases h
  · rintro ⟨c, hw, hvalid⟩
    exact parse_of_not_valid hw hvalid
  · rintro ⟨reason, h⟩ ⟨c, hw⟩
    by_cases hvalid : c.Valid
    · rw [parse_of_valid hw hvalid] at h
      cases h
    · obtain ⟨reason', h'⟩ := parse_of_not_valid hw hvalid
      rw [h'] at h
      cases h

end PathSieve.Config

/-
  What the entry points do with bytes that a host has placed.

  Bytes are held at a pointer if they lie in the memory there and pointer and length can
  be told as 32-bit integers (`Held`). An entry point that is given held bytes never
  traps for want of them and passes its checks of pointers and lengths, so what it does
  is a case distinction on the handle and on what the bytes say.
-/
import PathSieve.Proofs.Rule.Kept
import PathSieve.Proofs.Sandbox.Room

namespace PathSieve.Guest

/-- Bytes lie at a pointer, and both can be told to the guest. -/
structure Held (g : Guest) (ptr : Nat) (bytes : List UInt8) : Prop where
  holds : g.memory.Holds ptr bytes
  length_lt : bytes.length < 0x80000000
  ptr_lt : ptr < 0x100000000
  ptr_pos : 0 < bytes.length → 0 < ptr

/-- Bytes that are written where memory was taken for them are held there. -/
theorem Taken.held {g g' : Guest} {ptr : Nat} {bytes : List UInt8}
    (h : Taken g bytes.length ptr g') : (g'.holding ptr bytes).Held ptr bytes :=
  ⟨Memory.holds_store h.inside, h.size_lt, h.ptr_lt, h.ptr_pos⟩

/-- What is placed later lies elsewhere. -/
theorem Taken.held_holding {g g' g'' : Guest} {ptr ptr' : Nat} {bytes bytes' : List UInt8}
    (h : Taken g bytes.length ptr g')
    (h' : Taken (g'.holding ptr bytes) bytes'.length ptr' g'') :
    (g''.holding ptr' bytes').Held ptr bytes := by
  refine ⟨?_, h.size_lt, h.ptr_lt, h.ptr_pos⟩
  by_cases hlen : bytes.length = 0
  · exact Or.inl (List.length_eq_zero_iff.mp hlen)
  · exact (h.held.holds.later h'.later h'.cells_eq).store
      (h.apart_of_taken (Nat.pos_of_ne_zero hlen) (g'.holding_heap ..) h')

namespace Held

variable {g : Guest} {ptr : Nat} {bytes : List UInt8}

theorem length_lt' (h : g.Held ptr bytes) : bytes.length < 0x100000000 :=
  Nat.lt_trans h.length_lt (by decide)

theorem input (h : g.Held ptr bytes) :
    g.input (ofWord ptr) (ofWord bytes.length) = .ok bytes := by
  unfold Guest.input
  simp only [ofWord_eq_zero_iff h.length_lt']
  split
  · next hlen => rw [List.length_eq_zero_iff.mp hlen]
  next hlen =>
  rcases h.holds with hnil | ⟨hin, hload⟩
  · exact absurd (congrArg List.length hnil) hlen
  rw [word_ofWord h.ptr_lt, word_ofWord h.length_lt', Memory.slice, Memory.covers,
    if_pos (decide_eq_true hin), hload]

/-- A held range is not taken for a missing one. -/
theorem not_missing (h : g.Held ptr bytes) :
    (decide (ofWord bytes.length < 0) ||
      (decide (ofWord bytes.length > 0) && decide (ofWord ptr = 0))) = false := by
  rw [decide_eq_false (not_ofWord_neg h.length_lt), Bool.false_or, Bool.and_eq_false_iff]
  by_cases hlen : bytes.length = 0
  · left
    rw [hlen]
    decide
  · right
    rw [decide_eq_false_iff_not, ofWord_eq_zero_iff h.ptr_lt]
    exact Nat.pos_iff_ne_zero.mp (h.ptr_pos (Nat.pos_of_ne_zero hlen))

theorem isMatch (h : g.Held ptr bytes) (handle isDir : Int32) :
    g.isMatch handle (ofWord ptr) (ofWord bytes.length) isDir =
      if handle ≤ 0 then .ok (-1)
      else if (Text.Utf8.decode? bytes).isNone then .ok (-3)
      else
        match g.rules.get? (word handle) with
        | none => .ok (-4)
        | some rs =>
          match rs.verdict? bytes (isDir != 0) with
          | some v => .ok v.code
          | none => .error (.unrooted .isMatch) := by
  unfold Guest.isMatch
  split
  · rfl
  rw [if_neg (by rw [h.not_missing]; decide), h.input]
  show (if (Text.Utf8.decode? bytes).isNone then _ else _) = _
  split
  · rfl
  cases g.rules.get? (word handle) with
  | none => rfl
  | some rs => cases rs.verdict? bytes (isDir != 0) <;> rfl

theorem createMatcher (h : g.Held ptr bytes) :
    g.createMatcher (ofWord ptr) (ofWord bytes.length) =
      match RuleSet.ofText? bytes with
      | none => .ok (-3, g)
      | some rs =>
        .ok (ofWord (g.rules.insert rs).1, { g with rules := (g.rules.insert rs).2 }) := by
  have hmissing := h.not_missing
  rw [Bool.or_eq_false_iff, decide_eq_false_iff_not] at hmissing
  unfold Guest.createMatcher
  rw [if_neg hmissing.1, if_neg (by rw [hmissing.2]; decide), h.input]
  show (match RuleSet.ofText? bytes with | none => _ | some _ => _) = _
  cases RuleSet.ofText? bytes <;> rfl

end Held

/-! ## Filtering -/

/-- Writing the kept lines takes memory for their text, or there is none. -/
theorem Sound.writeResult_eq {g : Guest} (hs : g.Sound) {kept : List String} (hne : kept ≠ [])
    (hlen : (Text.Utf8.encode (Text.unlines kept)).length ≤ Instance.maxAllocation)
    (hpos : 0 < (Text.Utf8.encode (Text.unlines kept)).length) :
    g.writeResult kept =
      match g.take? (Text.Utf8.encode (Text.unlines kept)).length with
      | none => .error .resultExhausted
      | some (ptr, g') =>
        .ok (ptr, (Text.Utf8.encode (Text.unlines kept)).length,
          g'.holding ptr (Text.Utf8.encode (Text.unlines kept))) := by
  generalize hbytes : Text.Utf8.encode (Text.unlines kept) = bytes at *
  unfold Guest.writeResult
  rw [if_neg (by simpa using hne)]
  simp only [hbytes]
  cases htake : g.take? bytes.length with
  | none =>
    unfold Guest.take? at htake
    rw [if_neg (Nat.pos_iff_ne_zero.mp hpos), if_neg (Nat.not_lt.mpr hlen)] at htake
    rw [Option.map_eq_none_iff.mp htake]
  | some r =>
    obtain ⟨ptr, g'⟩ := r
    have hg := hs.take? htake
    unfold Guest.take? at htake
    rw [if_neg (Nat.pos_iff_ne_zero.mp hpos), if_neg (Nat.not_lt.mpr hlen)] at htake
    obtain ⟨⟨ptr', heap, memory⟩, ha, he⟩ := Option.map_eq_some_iff.mp htake
    simp only [Prod.mk.injEq] at he
    obtain ⟨rfl, rfl⟩ := he
    have hin : memory.covers ptr' bytes.length = true := decide_eq_true hg.inside
    simp only [ha, Memory.overwrite, if_pos hin, Except.map]
    rfl

/-- The guest after a filter that kept lines: their text lies where memory was taken for
    it, and the descriptor tells where. -/
def described (g : Guest) (ptr : Nat) (bytes : List UInt8) (info : Nat) : Guest :=
  (g.holding ptr bytes).holding info (wordBytes ptr ++ wordBytes bytes.length)

/-- A descriptor inside the memory is written. -/
theorem overwrite_descriptor {m : Memory} {info : Nat}
    (hin : info + Instance.descriptorSize ≤ m.size) (ptr len : Nat) :
    m.overwrite info (wordBytes ptr ++ wordBytes len) =
      .ok (m.store info (wordBytes ptr ++ wordBytes len)) := by
  have hcovers : m.covers info (wordBytes ptr ++ wordBytes len).length = true := by
    rw [List.length_append, length_wordBytes, length_wordBytes]
    exact decide_eq_true hin
  rw [Memory.overwrite, if_pos hcovers]

/-- The text of kept lines is no longer than the text they come from, so nothing but want of
    memory keeps it from being written. -/
theorem Sound.writeResult_of_keptLines? {g : Guest} (hs : g.Sound) {rs : RuleSet}
    {text l : String} {ls : List String} (hkept : rs.keptLines? text = some (l :: ls))
    (hlen : (Text.Utf8.encode text).length < 0x80000000) :
    g.writeResult (l :: ls) =
      match g.take? (Text.Utf8.encode (Text.unlines (l :: ls))).length with
      | none => .error .resultExhausted
      | some (ptr, g') =>
        .ok (ptr, (Text.Utf8.encode (Text.unlines (l :: ls))).length,
          g'.holding ptr (Text.Utf8.encode (Text.unlines (l :: ls)))) := by
  obtain ⟨hpos, hle, -, -⟩ := RuleSet.bounds_of_keptLines? hkept
  refine hs.writeResult_eq (List.cons_ne_nil l ls) ?_ hpos
  simp only [Instance.maxAllocation]
  omega

theorem Held.batchFilter {g : Guest} {ptr : Nat} {text : String} (hs : g.Sound)
    (h : g.Held ptr (Text.Utf8.encode text)) {info : Nat} (hpos : 0 < info)
    (hlt : info < 0x100000000) (hin : info + Instance.descriptorSize ≤ g.memory.size)
    (handle : Int32) :
    g.batchFilter handle (ofWord ptr) (ofWord (Text.Utf8.encode text).length) (ofWord info) =
      if handle ≤ 0 then (.ok (-1), g)
      else
        match g.rules.get? (word handle) with
        | none => (.ok (-5), g)
        | some rs =>
          match rs.keptLines? text with
          | none => (.error (.unrooted .batchFilter), g)
          | some [] => (.ok 0, g.holding info (wordBytes 0 ++ wordBytes 0))
          | some kept =>
            match g.take? (Text.Utf8.encode (Text.unlines kept)).length with
            | none => (.error .resultExhausted, g)
            | some (ptr, g') =>
              (.ok (ofWord kept.length),
                g'.described ptr (Text.Utf8.encode (Text.unlines kept)) info) := by
  unfold Guest.batchFilter
  split
  · rfl
  have hinfo : ¬ ofWord info = 0 := by
    rw [ofWord_eq_zero_iff hlt]
    exact Nat.pos_iff_ne_zero.mp hpos
  rw [if_neg hinfo, if_neg (by rw [h.not_missing]; decide), h.input]
  simp only [Text.Utf8.decode?_encode, word_ofWord hlt]
  cases g.rules.get? (word handle) with
  | none => rfl
  | some rs =>
    simp only
    cases hkept : rs.keptLines? text with
    | none => rfl
    | some kept =>
      cases kept with
      | nil =>
        simp only [Guest.writeResult, List.isEmpty_nil, if_true, overwrite_descriptor hin]
        rfl
      | cons l ls =>
        simp only [hs.writeResult_of_keptLines? hkept h.length_lt]
        cases htake : g.take? (Text.Utf8.encode (Text.unlines (l :: ls))).length with
        | none => rfl
        | some r =>
          obtain ⟨ptr', g'⟩ := r
          have hin' : info + Instance.descriptorSize ≤ g'.memory.size :=
            Nat.le_trans hin (hs.take? htake).later.size_le
          simp only [overwrite_descriptor (m := (g'.holding ptr' _).memory) hin']
          rfl

end PathSieve.Guest

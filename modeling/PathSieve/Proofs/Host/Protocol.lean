/-
  The call protocol of the batch filter.

  A batch filter that is refused has not touched the guest, and neither has one that traps
  because its input lies outside the memory, because a path is not below the root, or because
  there is no room for the result. When the handle stands for a rule set, the input is a text
  and the descriptor lies inside a live block, the call ends in one of four ways
  (`Guest.Filters`). If lines are kept, their text lies in a block of its own, the descriptor
  tells where, and nothing else has changed (`Guest.Delivered`).
-/
import PathSieve.Proofs.Host.Restored
import PathSieve.Proofs.Host.Visits
import PathSieve.Proofs.Host.Watch
import PathSieve.Proofs.Sandbox.Exact

namespace PathSieve.Guest

open Text

/-! ## Texts as arguments -/

/-- A pointer and a length name a text: the length is not negative, the pointer is not null
    unless there are no bytes, and the bytes lie in the memory and are those of the text. -/
structure Names (g : Guest) (ptr len : Int32) (text : String) : Prop where
  len_nonneg : 0 ≤ len
  ptr_ne : len ≠ 0 → ptr ≠ 0
  input_eq : g.input ptr len = .ok (Utf8.encode text)

theorem holds_of_input {g : Guest} {ptr len : Int32} {bytes : List UInt8}
    (h : g.input ptr len = .ok bytes) :
    bytes.length = word len ∧ g.memory.Holds (word ptr) bytes := by
  unfold Guest.input at h
  split at h
  · next hlen =>
    obtain rfl := (Except.ok.inj h).symm
    subst hlen
    exact ⟨rfl, .inl rfl⟩
  · unfold Memory.slice at h
    split at h
    · next hin =>
      obtain rfl := (Except.ok.inj h).symm
      refine ⟨Memory.length_load .., .inr ⟨?_, ?_⟩⟩
      · rw [Memory.length_load]
        exact of_decide_eq_true hin
      · rw [Memory.length_load]
    · cases h

namespace Names

variable {g : Guest} {ptr len : Int32} {text : String}

theorem ofWord_length (h : g.Names ptr len text) : ofWord (Utf8.encode text).length = len := by
  rw [(holds_of_input h.input_eq).1, ofWord_word]

theorem held (h : g.Names ptr len text) : g.Held (word ptr) (Utf8.encode text) := by
  obtain ⟨hlen, hholds⟩ := holds_of_input h.input_eq
  refine ⟨hholds, ?_, ptr.toUInt32.toNat_lt, fun hpos => Nat.pos_of_ne_zero fun hzero => ?_⟩
  · rw [hlen]
    exact (toInt_eq_word h.len_nonneg).2
  · have hne : len ≠ 0 := by
      rintro rfl
      rw [hlen] at hpos
      exact absurd hpos (by decide)
    exact h.ptr_ne hne (word_inj.mp hzero)

end Names

/-! ## Calls that come to nothing -/

/-- A batch filter gives a negative code or traps, and has done nothing; or it has written the
    lines that it keeps, and gives their number if the descriptor lies inside the memory. -/
theorem batchFilter_reach (g : Guest) (handle ptr len info : Int32) :
    ((g.batchFilter handle ptr len info).2 = g ∧
        ∀ code, (g.batchFilter handle ptr len info).1 = .ok code → code < 0) ∨
      0 ≤ len ∧ ∃ (text : String) (rs : RuleSet) (kept : List String) (resultPtr resultLen : Nat)
        (g' : Guest), g.input ptr len = .ok (Utf8.encode text) ∧ rs.keptLines? text = some kept ∧
          g.writeResult kept = .ok (resultPtr, resultLen, g') ∧
          g.batchFilter handle ptr len info =
            match g'.memory.overwrite (word info) (wordBytes resultPtr ++ wordBytes resultLen) with
            | .error trap => (.error trap, g')
            | .ok memory => (.ok (ofWord kept.length), { g' with memory := memory }) := by
  have code {reply : Except Trap Int32} (h : ∀ code, reply = .ok code → code < 0) :
      g = g ∧ ∀ code, reply = .ok code → code < 0 := ⟨rfl, h⟩
  unfold Guest.batchFilter
  split
  · exact .inl (code (by simp))
  split
  · exact .inl (code (by simp))
  split
  · exact .inl (code (by simp))
  next hlen =>
  split
  · exact .inl (code (by simp))
  next bytes hin =>
  split
  · exact .inl (code (by simp))
  next text hdecode =>
  split
  · exact .inl (code (by simp))
  next rs _ =>
  split
  · exact .inl (code (by simp))
  next kept hkept =>
  split
  · exact .inl (code (by simp))
  next resultPtr resultLen g' hw =>
  have hnonneg : 0 ≤ len := by
    rw [Bool.or_eq_true, not_or, decide_eq_true_eq, Int32.not_lt] at hlen
    exact hlen.1
  rw [Utf8.eq_encode_of_decode? hdecode] at hin
  exact .inr ⟨hnonneg, text, rs, kept, resultPtr, resultLen, g', hin, hkept, hw, rfl⟩

/-- What is kept of an input has no more lines than there are bytes, and its text is no longer. -/
theorem kept_bounds {g : Guest} {ptr len : Int32} {text : String} {rs : RuleSet}
    {kept : List String} (hlen : 0 ≤ len) (hin : g.input ptr len = .ok (Utf8.encode text))
    (hkept : rs.keptLines? text = some kept) :
    kept.length < 0x80000000 ∧ (kept ≠ [] → 0 < (Utf8.encode (unlines kept)).length ∧
      (Utf8.encode (unlines kept)).length < 0x80000000) := by
  have hbytes := (holds_of_input hin).1
  have hword := (toInt_eq_word hlen).2
  obtain ⟨-, rfl⟩ := RuleSet.keptLines?_eq_some_iff.mp hkept
  rcases eq_or_ne (rs.kept (lines text)) [] with hnil | hne
  · rw [hnil]
    exact ⟨by decide, fun h => absurd rfl h⟩
  · obtain ⟨hpos, hle, hcount⟩ := RuleSet.length_kept_le hne
    exact ⟨by omega, fun _ => ⟨hpos, by omega⟩⟩

/-- The ends of a batch filter at which nothing has happened. -/
structure Idle (g : Guest) (ptr len : Int32) (reply : Except Trap Int32) (g' : Guest) : Prop where
  refused : ∀ code, reply = .ok code → code < 0 → g' = g
  exhausted : reply = .error .resultExhausted → g' = g
  unrooted : reply = .error (.unrooted .batchFilter) → g' = g
  outside : ∀ trap, g.input ptr len = .error trap → g' = g

theorem idle_batchFilter (g : Guest) (handle ptr len info : Int32) :
    g.Idle ptr len (g.batchFilter handle ptr len info).1 (g.batchFilter handle ptr len info).2 := by
  rcases g.batchFilter_reach handle ptr len info with
    ⟨heq, -⟩ | ⟨hlen, text, rs, kept, resultPtr, resultLen, g', hin, hkept, -, hcall⟩
  · exact ⟨fun _ _ _ => heq, fun _ => heq, fun _ => heq, fun _ _ => heq⟩
  have houtside : ∀ trap, g.input ptr len = .error trap →
      (g.batchFilter handle ptr len info).2 = g := fun trap htrap => by
    rw [hin] at htrap
    cases htrap
  cases ho : g'.memory.overwrite (word info) (wordBytes resultPtr ++ wordBytes resultLen) with
  | error trap =>
    obtain rfl := Memory.overwrite_error ho
    rw [ho] at hcall
    rw [hcall] at houtside ⊢
    exact ⟨by simp, by simp, by simp, houtside⟩
  | ok memory =>
    rw [ho] at hcall
    rw [hcall] at houtside ⊢
    refine ⟨fun code hcode hneg => ?_, by simp, by simp, houtside⟩
    obtain rfl := Except.ok.inj hcode
    exact absurd hneg (not_ofWord_neg (kept_bounds hlen hin hkept).1)

/-! ## Calls that filter -/

/-- Is a place one of those at which the descriptor is written? -/
def InDescriptor (info : Int32) (i : Nat) : Prop :=
  word info ≤ i ∧ i < word info + Instance.descriptorSize

/-- A guest some time after another, with the same rule sets, and with the same bytes but at
    some places. -/
structure SameBut (touched : Nat → Prop) (g g' : Guest) : Prop where
  name_eq : g'.name = g.name
  rules_eq : g'.rules = g.rules
  later : g.memory.Later g'.memory
  byteAt_eq : ∀ i, ¬ touched i → g'.memory.byteAt i = g.memory.byteAt i

/-- The kept lines lie in a block of their own that the descriptor tells of, and nothing else
    has changed. -/
structure Delivered (g : Guest) (kept : List String) (info : Int32) (s : Span) (b : Block)
    (g' : Guest) : Prop where
  described : describedAt g' info.toUInt32 = some s
  offset_eq : b.offset = s.ptr.toNat
  /-- The block is as large as the text, with its padding. -/
  size_eq : b.size = Heap.padded s.len.toNat
  len_pos : 0 < s.len.toNat
  len_lt : s.len.toNat < 0x80000000
  live_perm : g'.heap.live.Perm (b :: g.heap.live)
  apart : ∀ c ∈ g.heap.live, c.stop ≤ b.offset ∨ b.stop ≤ c.offset
  lines_eq : (Utf8.decode? (g'.memory.load s.ptr.toNat s.len.toNat)).map lines = some kept
  same : SameBut (fun i => (b.offset ≤ i ∧ i < b.stop) ∨ InDescriptor info i) g g'

/-- How it ends to filter a text with a known rule set: the reply, and the guest after it. -/
inductive Filters (g : Guest) (rs : RuleSet) (text : String) (info : Int32) :
    Except Trap Int32 × Guest → Prop where
  /-- There is a line that cannot be decided. -/
  | unrooted (undecided : ¬ rs.Decides (lines text)) :
    Filters g rs text info (.error (.unrooted .batchFilter), g)
  /-- There is no room for the text of the kept lines. -/
  | exhausted (decides : rs.Decides (lines text)) (kept_ne : rs.kept (lines text) ≠ [])
    (no_room : g.hasRoom [(Utf8.encode (unlines (rs.kept (lines text)))).length] = false) :
    Filters g rs text info (.error .resultExhausted, g)
  /-- No line is kept, and the descriptor is zero. -/
  | none {g' : Guest} (decides : rs.Decides (lines text)) (kept_eq : rs.kept (lines text) = [])
    (zero : g'.memory.load (word info) Instance.descriptorSize =
      List.replicate Instance.descriptorSize 0)
    (heap_eq : g'.heap = g.heap) (same : SameBut (InDescriptor info) g g') :
    Filters g rs text info (.ok 0, g')
  /-- Lines are kept, and they are delivered. -/
  | some {code : Int32} {s : Span} {b : Block} {g' : Guest} (decides : rs.Decides (lines text))
    (kept_ne : rs.kept (lines text) ≠ []) (count : code.toInt = (rs.kept (lines text)).length)
    (delivered : Delivered g (rs.kept (lines text)) info s b g') :
    Filters g rs text info (.ok code, g')

/-- The words that are written as a descriptor are read as one. -/
theorem describedAt_holding {g : Guest} {info : UInt32} {a b : Nat} (ha : a < 0x100000000)
    (hb : b < 0x100000000) (hin : info.toNat + Instance.descriptorSize ≤ g.memory.size) :
    describedAt (g.holding info.toNat (wordBytes a ++ wordBytes b)) info =
      .some ⟨UInt32.ofNat a, UInt32.ofNat b⟩ := by
  have hbyte : ∀ k, k < 8 → Backend.byteAt (g.holding info.toNat (wordBytes a ++ wordBytes b))
      (info.toNat + k) = (wordBytes a ++ wordBytes b).getD k 0 := by
    intro k hk
    show (g.memory.store _ _).byteAt _ = _
    rw [Memory.byteAt_store, if_pos ⟨by omega, by simpa using hk⟩, Nat.add_sub_cancel_left]
  have hzero := hbyte 0 (by decide)
  rw [Nat.add_zero] at hzero
  have hread : ¬ Backend.memorySize (g.holding info.toNat (wordBytes a ++ wordBytes b)) <
      info.toNat + Instance.descriptorSize := Nat.not_lt.mpr hin
  unfold describedAt
  rw [if_neg hread, wordAt, wordAt]
  simp only [Nat.add_assoc, Nat.reduceAdd, hzero, hbyte 1 (by decide), hbyte 2 (by decide),
    hbyte 3 (by decide), hbyte 4 (by decide), hbyte 5 (by decide), hbyte 6 (by decide),
    hbyte 7 (by decide)]
  rw [← wordOf_wordBytes ha, ← wordOf_wordBytes hb]
  rfl

namespace Sound

variable {g g' : Guest}

theorem live_perm_take? (hs : g.Sound) {size ptr : Nat} (hpos : 0 < size)
    (ht : g.take? size = .some (ptr, g')) :
    g'.heap.live.Perm (⟨ptr, Heap.padded size⟩ :: g.heap.live) := by
  unfold Guest.take? at ht
  rw [if_neg (Nat.pos_iff_ne_zero.mp hpos)] at ht
  split at ht
  · simp at ht
  obtain ⟨⟨ptr', heap, memory⟩, ha, he⟩ := Option.map_eq_some_iff.mp ht
  simp only [Prod.mk.injEq] at he
  obtain ⟨rfl, rfl⟩ := he
  exact hs.heap.live_perm_alloc? ha

/-- Taken memory with the text of lines in it is delivered by a descriptor in a live block. -/
theorem delivered (hs : g.Sound) {kept : List String} {info : Int32} {ptr : Nat} {d : Block}
    (hlines : lines (unlines kept) = kept) (hpos : 0 < (Utf8.encode (unlines kept)).length)
    (ht : g.take? (Utf8.encode (unlines kept)).length = .some (ptr, g')) (hd : d ∈ g.heap.live)
    (hlo : d.offset ≤ word info) (hhi : word info + Instance.descriptorSize ≤ d.stop) :
    Delivered g kept info (.ofNat ptr (Utf8.encode (unlines kept)).length)
      ⟨ptr, Heap.padded (Utf8.encode (unlines kept)).length⟩
      (g'.described ptr (Utf8.encode (unlines kept)) (word info)) := by
  have htaken := hs.take? ht
  have hperm := hs.live_perm_take? hpos ht
  have hin := hs.heap.inside d hd
  have hgrown := htaken.later.size_le
  have hapart := htaken.apart d hd
  have hpad : (Utf8.encode (unlines kept)).length ≤
      Heap.padded (Utf8.encode (unlines kept)).length := by
    simp only [Heap.padded, Heap.unit]
    omega
  generalize hbytes : Utf8.encode (unlines kept) = bytes at *
  have hlen : bytes.length < 0x100000000 := Nat.lt_trans htaken.size_lt (by decide)
  have hptr : (UInt32.ofNat ptr).toNat = ptr := UInt32.toNat_ofNat_of_lt' htaken.ptr_lt
  have hsize : (UInt32.ofNat bytes.length).toNat = bytes.length := UInt32.toNat_ofNat_of_lt' hlen
  simp only [Instance.descriptorSize] at hhi
  have hlater : g.memory.Later (g'.described ptr bytes (word info)).memory :=
    htaken.later.trans (.trans (.store ..) (.store ..))
  refine ⟨?_, hptr.symm, congrArg Heap.padded hsize.symm, hsize.symm ▸ hpos,
    hsize.symm ▸ htaken.size_lt, hperm, fun c hc => ?_, ?_, htaken.name_eq, htaken.rules_eq,
    hlater, fun i hi => ?_⟩
  · exact describedAt_holding htaken.ptr_lt hlen (Nat.le_trans hhi (Nat.le_trans hin hgrown))
  · have hnew : ⟨ptr, Heap.padded bytes.length⟩ ∈ g'.heap.live := hperm.mem_iff.mpr (by simp)
    have hold : c ∈ g'.heap.live := hperm.mem_iff.mpr (List.mem_cons_of_mem _ hc)
    have hc' := htaken.apart c hc
    rcases Block.apart_of_mem htaken.sound.heap.laid.spaced hold hnew with rfl | hor
    · simp only [Block.stop] at hc'
      omega
    · exact hor
  · have hheld : (g'.described ptr bytes (word info)).memory.Holds ptr bytes :=
      (Memory.holds_store htaken.inside).store (by
        simp only [List.length_append, length_wordBytes]
        omega)
    obtain ⟨-, hload⟩ := hheld.resolve_left (List.length_pos_iff.mp hpos)
    simp only [Span.ofNat]
    rw [hptr, hsize, hload, ← hbytes, Utf8.decode?_encode, Option.map_some, hlines]
  · obtain ⟨hblock, hdescriptor⟩ := not_or.mp hi
    simp only [InDescriptor, Instance.descriptorSize, Block.stop] at hblock hdescriptor
    show ((g'.memory.store ptr bytes).store (word info) _).byteAt i = _
    rw [Memory.byteAt_store, if_neg (by simpa using hdescriptor), Memory.byteAt_store,
      if_neg (by omega), Memory.byteAt, Memory.byteAt, htaken.cells_eq]

theorem filters (hs : g.Sound) {handle ptr len info : Int32} {rs : RuleSet} {text : String}
    (hrs : g.rules.get? (word handle) = .some rs) (htext : g.Names ptr len text)
    (hinfo : ∃ d ∈ g.heap.live, d.offset ≤ word info ∧
      word info + Instance.descriptorSize ≤ d.stop) :
    g.Filters rs text info (g.batchFilter handle ptr len info) := by
  obtain ⟨d, hd, hlo, hhi⟩ := hinfo
  have hbase := (Block.bounds_of_mem hs.heap.laid.spaced hd).1
  have hinside := hs.heap.inside d hd
  have hhandle : ¬ handle ≤ 0 := by
    obtain ⟨hone, hmax⟩ := hs.rules.bounds_of_get? hrs
    rw [← ofWord_word handle]
    exact not_ofWord_le_zero hone (Nat.lt_of_le_of_lt hmax (by decide))
  have hpos : 0 < word info := by
    simp only [Heap.base] at hbase
    omega
  have hcall := htext.held.batchFilter hs hpos info.toUInt32.toNat_lt (by omega) handle
  rw [htext.ofWord_length, ofWord_word, ofWord_word, if_neg hhandle, hrs] at hcall
  rw [hcall]
  cases hkept : rs.keptLines? text with
  | none =>
    have hundecided : ¬ rs.Decides (lines text) := fun hdecides => by
      rw [RuleSet.keptLines?_eq_some_iff.mpr ⟨hdecides, rfl⟩] at hkept
      cases hkept
    simp only [hkept]
    exact .unrooted hundecided
  | some kept =>
    obtain ⟨hdecides, hk⟩ := RuleSet.keptLines?_eq_some_iff.mp hkept
    cases kept with
    | nil =>
      simp only [hkept]
      refine .none hdecides hk.symm ?_ rfl ⟨rfl, rfl, .store .., fun i hi => ?_⟩
      · exact Memory.load_store_self g.memory (word info) (List.replicate 8 0)
      · exact (Memory.byteAt_store ..).trans (if_neg hi)
    | cons l ls =>
      have hne : rs.kept (lines text) ≠ [] := hk ▸ List.cons_ne_nil l ls
      obtain ⟨hpos, hle, hcount⟩ := RuleSet.length_kept_le hne
      have hlines := RuleSet.lines_unlines_kept (fun l hl => not_mem_of_mem_lines hl) hne
      have hshort := htext.held.length_lt
      simp only [hkept]
      rw [hk]
      cases htake : g.take? (Utf8.encode (unlines (rs.kept (lines text)))).length with
      | none =>
        refine .exhausted hdecides hne ?_
        rw [hasRoom_singleton, htake]
        rfl
      | some r =>
        exact .some hdecides hne (toInt_ofWord (by omega))
          (hs.delivered hlines hpos htake hd hlo hhi)

end Sound

/-- A batch filter that gives a negative code, or that traps for want of memory, for an input
    outside the memory or for a path that is not below the root, leaves the guest as it was.
    With a known rule set, a text and a descriptor inside a live block it filters the text. -/
theorem batchFilter_meets_protocol {g : Guest} (hv : g.Visited) (handle ptr len info : Int32) :
    g.Idle ptr len (g.batchFilter handle ptr len info).1 (g.batchFilter handle ptr len info).2 ∧
      ∀ rs text, g.rules.get? (word handle) = some rs → g.Names ptr len text →
        (∃ d ∈ g.heap.live, d.offset ≤ word info ∧
          word info + Instance.descriptorSize ≤ d.stop) →
        g.Filters rs text info (g.batchFilter handle ptr len info) :=
  ⟨g.idle_batchFilter handle ptr len info, fun _ _ hrs htext hinfo =>
    hv.sound.filters hrs htext hinfo⟩

/-- One of two lines is kept. The list and the descriptor lie in one block, and the result is
    put into the gap below it. -/
theorem batchFilter_meets_protocol_gap :
    ∃ g : Guest, g = Instance.fragmented.guest.visit (.store 40 [97, 10, 98]) ∧ g.Visited ∧
      ∃ rs, g.rules.get? (word 1) = some rs ∧ g.Names 40 3 "a\nb" ∧
        (∃ d ∈ g.heap.live, d.offset ≤ word 48 ∧ word 48 + Instance.descriptorSize ≤ d.stop) ∧
        (g.batchFilter 1 40 3 48).1.toOption = some 1 ∧
        describedAt (g.batchFilter 1 40 3 48).2 48 = some ⟨16, 1⟩ ∧
        g.Filters rs "a\nb" 48 (g.batchFilter 1 40 3 48) := by
  have hvisited : (Instance.fragmented.guest.visit (.store 40 [97, 10, 98])).Visited :=
    .visit _ Instance.reachable_fragmented.visited
  have hfound : ((Instance.fragmented.guest.visit (.store 40 [97, 10, 98])).rules.get?
      (word 1)).isSome := by decide +kernel
  obtain ⟨rs, hrs⟩ := Option.isSome_iff_exists.mp hfound
  have hin : (Instance.fragmented.guest.visit (.store 40 [97, 10, 98])).input 40 3 =
      .ok (Utf8.encode "a\nb") := Instance.eq_ok_of_toOption (by decide +kernel)
  have htext : (Instance.fragmented.guest.visit (.store 40 [97, 10, 98])).Names 40 3 "a\nb" :=
    ⟨by decide, by decide, hin⟩
  have hinfo : ∃ d ∈ (Instance.fragmented.guest.visit (.store 40 [97, 10, 98])).heap.live,
      d.offset ≤ word 48 ∧ word 48 + Instance.descriptorSize ≤ d.stop := by decide +kernel
  exact ⟨_, rfl, hvisited, rs, hrs, htext, hinfo, by decide +kernel, by decide +kernel,
    (batchFilter_meets_protocol hvisited 1 40 3 48).2 rs _ hrs htext hinfo⟩

end PathSieve.Guest

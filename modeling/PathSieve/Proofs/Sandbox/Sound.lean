/-
  What holds of every guest.

  A guest is sound if its heap is laid out well in its memory and every handle of its
  table is a positive 32-bit number. A fresh guest is sound, and each entry point leaves a
  sound guest sound, whatever its arguments and however the call ends: also the one that
  writes, and also after a trap.
-/
import PathSieve.Proofs.Sandbox.HandOut
import PathSieve.Proofs.Sandbox.Words

namespace PathSieve.Memory

/-- Do the bytes lie at a place of the memory? No bytes lie anywhere. -/
def Holds (m : Memory) (ptr : Nat) (bytes : List UInt8) : Prop :=
  bytes = [] ∨ (ptr + bytes.length ≤ m.size ∧ m.load ptr bytes.length = bytes)

@[simp] theorem store_nil (m : Memory) (start : Nat) : m.store start [] = m := rfl

theorem load_congr {m m' : Memory} {start len : Nat}
    (h : ∀ i, start ≤ i → i < start + len → m'.byteAt i = m.byteAt i) :
    m'.load start len = m.load start len := by
  refine List.map_congr_left fun i hi => ?_
  obtain ⟨hlo, hhi⟩ := List.mem_range'_1.mp hi
  exact h i hlo hhi

theorem holds_store {m : Memory} {ptr : Nat} {bytes : List UInt8}
    (h : ptr + bytes.length ≤ m.size) : (m.store ptr bytes).Holds ptr bytes :=
  Or.inr ⟨h, load_store_self m ptr bytes⟩

theorem overwrite_ok {m m' : Memory} {ptr : Nat} {bytes : List UInt8}
    (h : m.overwrite ptr bytes = .ok m') :
    ptr + bytes.length ≤ m.size ∧ m' = m.store ptr bytes := by
  unfold overwrite at h
  split at h
  · next hin => exact ⟨of_decide_eq_true hin, (Except.ok.inj h).symm⟩
  · cases h

theorem overwrite_error {m : Memory} {ptr : Nat} {bytes : List UInt8} {trap : Trap}
    (h : m.overwrite ptr bytes = .error trap) : trap = .outOfBounds ptr bytes.length m.size := by
  unfold overwrite at h
  split at h
  · cases h
  · exact (Except.error.inj h).symm

namespace Holds

variable {m : Memory} {ptr : Nat} {bytes : List UInt8}

/-- Growing a memory loses nothing. -/
theorem later {m' : Memory} (h : m.Holds ptr bytes) (hm : m.Later m')
    (hcells : m'.cells = m.cells) : m'.Holds ptr bytes := by
  refine h.imp_right fun ⟨hin, hload⟩ => ⟨Nat.le_trans hin hm.size_le, ?_⟩
  rw [← hload, length_load]
  exact load_congr fun i _ _ => by rw [byteAt, byteAt, hcells]

/-- Writing elsewhere loses nothing. -/
theorem store {start : Nat} {new : List UInt8} (h : m.Holds ptr bytes)
    (hapart : ptr + bytes.length ≤ start ∨ start + new.length ≤ ptr) :
    (m.store start new).Holds ptr bytes := by
  refine h.imp_right fun ⟨hin, hload⟩ => ⟨hin, ?_⟩
  rw [← hload, length_load]
  refine load_congr fun i hlo hhi => ?_
  rw [byteAt_store, if_neg (by omega)]

end Holds

end PathSieve.Memory

namespace PathSieve.RuleTable

/-- Every handle is a positive 32-bit number, and so is the next one. -/
structure Sound (t : RuleTable) : Prop where
  one_le_next : 1 ≤ t.next
  next_le : t.next ≤ maxHandle
  handles : ∀ e ∈ t.entries, 1 ≤ e.1 ∧ e.1 ≤ maxHandle

theorem entries_insert (t : RuleTable) (rs : RuleSet) :
    (t.insert rs).2.entries = ((t.insert rs).1, rs) :: t.entries := rfl

theorem sound_empty : Sound empty := ⟨by decide, by decide, by simp [empty]⟩

theorem after_bounds {handle : Nat} : 1 ≤ after handle ∧ after handle ≤ maxHandle := by
  unfold after
  split
  · decide
  · omega

theorem unused_bounds (entries : List (Nat × RuleSet)) {handle : Nat} (tries : Nat)
    (h : 1 ≤ handle ∧ handle ≤ maxHandle) :
    1 ≤ unused entries handle tries ∧ unused entries handle tries ≤ maxHandle := by
  induction tries generalizing handle with
  | zero => exact h
  | succ tries ih =>
    rw [unused]
    split
    · exact ih after_bounds
    · exact h

namespace Sound

variable {t : RuleTable}

theorem handle_bounds (h : t.Sound) (rs : RuleSet) :
    1 ≤ (t.insert rs).1 ∧ (t.insert rs).1 ≤ maxHandle :=
  unused_bounds _ _ ⟨h.one_le_next, h.next_le⟩

theorem insert (h : t.Sound) (rs : RuleSet) : (t.insert rs).2.Sound := by
  refine ⟨after_bounds.1, after_bounds.2, fun e he => ?_⟩
  rcases List.mem_cons.mp he with rfl | he
  · exact h.handle_bounds rs
  · exact h.handles e he

theorem erase (h : t.Sound) (handle : Nat) : (t.erase handle).Sound :=
  ⟨h.one_le_next, h.next_le, fun e he => h.handles e (List.mem_filter.mp he).1⟩

/-- Only positive 32-bit numbers are handles of a table. -/
theorem bounds_of_get? (h : t.Sound) {handle : Nat} {rs : RuleSet}
    (hget : t.get? handle = some rs) : 1 ≤ handle ∧ handle ≤ maxHandle := by
  obtain ⟨e, hfind, -⟩ := Option.map_eq_some_iff.mp hget
  have hkey : e.1 = handle := by simpa using List.find?_some hfind
  rw [← hkey]
  exact h.handles e (List.mem_of_find?_eq_some hfind)

end Sound

end PathSieve.RuleTable

namespace PathSieve.Guest

/-! ## What an entry point can do to a guest -/

theorem alloc_cases (g : Guest) (size : Int32) :
    (g.alloc size).2 = g ∨
      ∃ ptr heap memory, g.heap.alloc? g.memory (word size) = some (ptr, heap, memory) ∧
        (g.alloc size).2 = { g with heap := heap, memory := memory } := by
  unfold Guest.alloc
  split
  · exact Or.inl rfl
  · split
    · next ptr heap memory ha => exact Or.inr ⟨ptr, heap, memory, ha, rfl⟩
    · exact Or.inl rfl

theorem dealloc_cases {g g' : Guest} {ptr size : Int32} (h : g.dealloc ptr size = .ok g') :
    g' = g ∨
      ∃ heap, g.heap.dealloc (word ptr) (word size) = .ok heap ∧ g' = { g with heap := heap } := by
  unfold Guest.dealloc at h
  split at h
  · rw [Except.ok.injEq] at h
    exact Or.inl h.symm
  · cases hheap : g.heap.dealloc (word ptr) (word size) with
    | error trap => simp [hheap, Except.map] at h
    | ok heap =>
      simp only [hheap, Except.map, Except.ok.injEq] at h
      exact Or.inr ⟨heap, rfl, h.symm⟩

theorem createMatcher_cases {g g' : Guest} {ptr len code : Int32}
    (h : g.createMatcher ptr len = .ok (code, g')) :
    g' = g ∨ ∃ rs, g' = { g with rules := (g.rules.insert rs).2 } := by
  unfold Guest.createMatcher at h
  split at h
  · simp only [Except.ok.injEq, Prod.mk.injEq] at h
    exact Or.inl h.2.symm
  split at h
  · simp only [Except.ok.injEq, Prod.mk.injEq] at h
    exact Or.inl h.2.symm
  cases hin : g.input ptr len with
  | error trap => simp [hin, bind, Except.bind] at h
  | ok text =>
    simp only [hin, bind, Except.bind] at h
    split at h
    · simp only [pure, Except.pure, Except.ok.injEq, Prod.mk.injEq] at h
      exact Or.inl h.2.symm
    · next rs _ =>
      simp only [pure, Except.pure, Except.ok.injEq, Prod.mk.injEq] at h
      exact Or.inr ⟨rs, h.2.symm⟩

theorem writeResult_cases {g g' : Guest} {kept : List String} {ptr len : Nat}
    (h : g.writeResult kept = .ok (ptr, len, g')) :
    g' = g ∨
      ∃ bytes heap memory m, g.heap.alloc? g.memory bytes.length = some (ptr, heap, memory) ∧
        memory.overwrite ptr bytes = .ok m ∧ g' = { g with heap := heap, memory := m } := by
  unfold Guest.writeResult at h
  split at h
  · simp only [Except.ok.injEq, Prod.mk.injEq] at h
    exact Or.inl h.2.2.symm
  dsimp only at h
  split at h
  · simp at h
  next ptr' heap memory ha =>
  cases ho : memory.overwrite ptr' (Text.Utf8.encode (Text.unlines kept)) with
  | error trap => simp [ho, Except.map] at h
  | ok m =>
    simp only [ho, Except.map, Except.ok.injEq, Prod.mk.injEq] at h
    obtain ⟨rfl, -, hg⟩ := h
    exact Or.inr ⟨_, heap, memory, m, ha, ho, hg.symm⟩

/-- A batch filter does nothing, or writes a result and then, where it can, the descriptor. -/
theorem batchFilter_cases (g : Guest) (handle ptr len info : Int32) :
    (g.batchFilter handle ptr len info).2 = g ∨
      ∃ kept resultPtr resultLen g', g.writeResult kept = .ok (resultPtr, resultLen, g') ∧
        ((g.batchFilter handle ptr len info).2 = g' ∨
          ∃ m, g'.memory.overwrite (word info) (wordBytes resultPtr ++ wordBytes resultLen) =
              .ok m ∧
            (g.batchFilter handle ptr len info).2 = { g' with memory := m }) := by
  unfold Guest.batchFilter
  split
  · exact Or.inl rfl
  split
  · exact Or.inl rfl
  split
  · exact Or.inl rfl
  split
  · exact Or.inl rfl
  split
  · exact Or.inl rfl
  split
  · exact Or.inl rfl
  split
  · exact Or.inl rfl
  split
  · exact Or.inl rfl
  next resultPtr resultLen g' hw =>
  refine Or.inr ⟨_, resultPtr, resultLen, g', hw, ?_⟩
  split
  · exact Or.inl rfl
  · next m ho => exact Or.inr ⟨m, ho, rfl⟩

/-! ## Soundness -/

/-- What holds of every guest. -/
structure Sound (g : Guest) : Prop where
  heap : g.heap.Sound g.memory
  rules : g.rules.Sound

theorem sound_fresh (name : String) (initialPages maxPages : Nat) :
    Sound (fresh name initialPages maxPages) :=
  ⟨Heap.sound_empty _, RuleTable.sound_empty⟩

namespace Sound

variable {g : Guest}

/-- Only the size of the memory matters. -/
theorem withMemory (h : g.Sound) {m : Memory} (hm : g.memory.Later m) :
    Sound { g with memory := m } :=
  ⟨h.heap.later hm, h.rules⟩

theorem store (h : g.Sound) (start : Nat) (bytes : List UInt8) :
    Sound { g with memory := g.memory.store start bytes } :=
  h.withMemory (.store ..)

theorem overwrite (h : g.Sound) {ptr : Nat} {bytes : List UInt8} {m : Memory}
    (ho : g.memory.overwrite ptr bytes = .ok m) : Sound { g with memory := m } := by
  obtain ⟨-, rfl⟩ := Memory.overwrite_ok ho
  exact h.store ptr bytes

theorem alloc (h : g.Sound) (size : Int32) : (g.alloc size).2.Sound := by
  rcases g.alloc_cases size with heq | ⟨ptr, heap, memory, ha, heq⟩
  · rwa [heq]
  · rw [heq]
    exact ⟨(h.heap.alloc? ha).sound, h.rules⟩

theorem dealloc (h : g.Sound) {ptr size : Int32} {g' : Guest}
    (hd : g.dealloc ptr size = .ok g') : g'.Sound := by
  rcases dealloc_cases hd with rfl | ⟨heap, hheap, rfl⟩
  · exact h
  · exact ⟨h.heap.dealloc hheap, h.rules⟩

theorem createMatcher (h : g.Sound) {ptr len code : Int32} {g' : Guest}
    (hc : g.createMatcher ptr len = .ok (code, g')) : g'.Sound := by
  rcases createMatcher_cases hc with rfl | ⟨rs, rfl⟩
  · exact h
  · exact ⟨h.heap, h.rules.insert rs⟩

theorem destroyMatcher (h : g.Sound) (handle : Int32) : (g.destroyMatcher handle).Sound := by
  unfold Guest.destroyMatcher
  split
  · exact ⟨h.heap, h.rules.erase _⟩
  · exact h

theorem writeResult (h : g.Sound) {kept : List String} {ptr len : Nat} {g' : Guest}
    (hw : g.writeResult kept = .ok (ptr, len, g')) : g'.Sound := by
  rcases writeResult_cases hw with rfl | ⟨bytes, heap, memory, m, ha, ho, rfl⟩
  · exact h
  · have hs : Sound { g with heap := heap, memory := memory } :=
      ⟨(h.heap.alloc? ha).sound, h.rules⟩
    exact hs.overwrite ho

theorem batchFilter (h : g.Sound) (handle ptr len info : Int32) :
    (g.batchFilter handle ptr len info).2.Sound := by
  rcases g.batchFilter_cases handle ptr len info with
    heq | ⟨kept, resultPtr, resultLen, g', hw, heq | ⟨m, ho, heq⟩⟩
  · rwa [heq]
  · rw [heq]
    exact h.writeResult hw
  · rw [heq]
    exact (h.writeResult hw).overwrite ho

end Sound

end PathSieve.Guest

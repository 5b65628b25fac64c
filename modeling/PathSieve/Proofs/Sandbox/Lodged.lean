/-
  What entry points leave alone.

  Bytes are lodged at a pointer if they are held there, in a live block that begins at that
  place (`Lodged`). An entry point only changes places that it hands out itself and the
  descriptor that it was told to write, and only `dealloc` ends the life of a block. So
  lodged bytes stay lodged under every call that does not take their block back and whose
  descriptor lies elsewhere, also when the call traps.
-/
import PathSieve.Proofs.Sandbox.Entry

namespace PathSieve

namespace Memory

/-- Have two ranges no place in common? -/
def Apart (start len start' len' : Nat) : Prop :=
  ∀ i, start ≤ i → i < start + len → ¬ (start' ≤ i ∧ i < start' + len')

theorem apart_of_le {start len start' len' : Nat}
    (h : start + len ≤ start' ∨ start' + len' ≤ start) : Apart start len start' len' := by
  intro i hlo hhi
  omega

end Memory

namespace Heap

/-- Taking a block back ends the life of the blocks at its place and of no other. -/
theorem live_dealloc {h h' : Heap} {ptr size : Nat} (hd : h.dealloc ptr size = .ok h') :
    h'.live = Block.erase ptr h.live := by
  have hrelease : ∀ (h : Heap) (b : Block), (h.release b).live = h.live := by
    intro h b
    unfold release
    dsimp only
    split <;> rfl
  unfold dealloc at hd
  split at hd
  · simp at hd
  split at hd
  · simp at hd
  split at hd
  · rw [Except.ok.injEq] at hd
    rw [← hd, hrelease]
  · simp at hd

end Heap

namespace Guest

/-- Is a block live that begins at a place? -/
def LiveAt (g : Guest) (ptr : Nat) : Prop :=
  ∃ b ∈ g.heap.live, b.offset = ptr

/-- Bytes are held at a pointer, in a live block that begins there. No bytes take no block. -/
structure Lodged (g : Guest) (ptr : Nat) (bytes : List UInt8) : Prop where
  held : g.Held ptr bytes
  live : 0 < bytes.length → ∃ b ∈ g.heap.live, b.offset = ptr ∧ bytes.length ≤ b.size

/-- Bytes that are written where memory was taken for them are lodged there. -/
theorem Taken.lodged {g g' : Guest} {ptr : Nat} {bytes : List UInt8}
    (h : Taken g bytes.length ptr g') : (g'.holding ptr bytes).Lodged ptr bytes :=
  ⟨h.held, h.live⟩

namespace Lodged

variable {g g' : Guest} {ptr : Nat} {bytes : List UInt8}

/-- What keeps the block live, the memory no smaller and the bytes as they are keeps them
    lodged. -/
theorem frame (h : g.Lodged ptr bytes)
    (hlive : ∀ b ∈ g.heap.live, b.offset = ptr → b ∈ g'.heap.live)
    (hsize : g.memory.size ≤ g'.memory.size)
    (hbytes : ∀ i, ptr ≤ i → i < ptr + bytes.length →
      g'.memory.byteAt i = g.memory.byteAt i) : g'.Lodged ptr bytes := by
  have hheld := h.held
  refine ⟨⟨?_, hheld.length_lt, hheld.ptr_lt, hheld.ptr_pos⟩, fun hpos => ?_⟩
  · refine hheld.holds.imp_right fun ⟨hin, hload⟩ => ⟨Nat.le_trans hin hsize, ?_⟩
    rw [Memory.load_congr hbytes, hload]
  · obtain ⟨b, hb, hoff, hlen⟩ := h.live hpos
    exact ⟨b, hlive b hb hoff, hoff, hlen⟩

/-- Only the heap and the memory matter. -/
theorem congr (h : g.Lodged ptr bytes) (hheap : g'.heap = g.heap)
    (hmemory : g'.memory = g.memory) : g'.Lodged ptr bytes :=
  h.frame (fun b hb _ => hheap ▸ hb) (Nat.le_of_eq (by rw [hmemory])) fun i _ _ => by rw [hmemory]

/-- Bytes are written elsewhere. -/
theorem store (h : g.Lodged ptr bytes) {start : Nat} {new : List UInt8}
    (hapart : Memory.Apart ptr bytes.length start new.length) :
    Lodged { g with memory := g.memory.store start new } ptr bytes := by
  refine h.frame (fun b hb _ => hb) (Nat.le_refl _) fun i hlo hhi => ?_
  show (g.memory.store start new).byteAt i = _
  rw [Memory.byteAt_store, if_neg (hapart i hlo hhi)]

theorem overwrite (h : g.Lodged ptr bytes) {start : Nat} {new : List UInt8} {m : Memory}
    (ho : g.memory.overwrite start new = .ok m)
    (hapart : Memory.Apart ptr bytes.length start new.length) :
    Lodged { g with memory := m } ptr bytes := by
  obtain ⟨-, rfl⟩ := Memory.overwrite_ok ho
  exact h.store hapart

/-- Memory is handed out, and it lies elsewhere. -/
theorem handedOut (h : g.Lodged ptr bytes) {size ptr' : Nat} {heap : Heap} {memory : Memory}
    (hout : Heap.HandedOut g.heap g.memory size ptr' heap memory) :
    Lodged { g with heap := heap, memory := memory } ptr bytes ∧
      Memory.Apart ptr bytes.length ptr' size := by
  obtain ⟨c, -, -, hmem⟩ := hout.live
  constructor
  · refine h.frame (fun b hb _ => (hmem b).mpr (Or.inr hb)) hout.later.size_le fun i _ _ => ?_
    rw [Memory.byteAt, Memory.byteAt, hout.cells_eq]
  · rcases Nat.eq_zero_or_pos bytes.length with hlen | hpos
    · intro i hlo hhi
      omega
    · obtain ⟨b, hb, hoff, hsize⟩ := h.live hpos
      have := hout.apart b hb
      simp only [Block.stop] at this
      exact Memory.apart_of_le (by omega)

theorem alloc (h : g.Lodged ptr bytes) (hs : g.Sound) (size : Int32) :
    (g.alloc size).2.Lodged ptr bytes := by
  rcases g.alloc_cases size with heq | ⟨ptr', heap, memory, ha, heq⟩
  · rwa [heq]
  · rw [heq]
    exact (h.handedOut (hs.heap.alloc? ha)).1

/-- Memory is taken back, but not the block of the bytes. -/
theorem dealloc (h : g.Lodged ptr bytes) {ptr' size : Int32}
    (hd : g.dealloc ptr' size = .ok g') (hspare : word ptr' = ptr → g'.LiveAt ptr) :
    g'.Lodged ptr bytes := by
  rcases dealloc_cases hd with rfl | ⟨heap, hheap, rfl⟩
  · exact h
  have hlive := Heap.live_dealloc hheap
  have hne : word ptr' ≠ ptr := by
    intro heq
    obtain ⟨c, hc, hoff⟩ := hspare heq
    have hc' : c ∈ Block.erase (word ptr') g.heap.live := hlive ▸ hc
    have := (List.mem_filter.mp hc').2
    simp [hoff, heq] at this
  refine h.frame (fun b hb hoff => ?_) (Nat.le_refl _) fun _ _ _ => rfl
  show b ∈ heap.live
  rw [hlive]
  exact List.mem_filter.mpr ⟨hb, by simp [hoff, Ne.symm hne]⟩

theorem createMatcher (h : g.Lodged ptr bytes) {ptr' len code : Int32}
    (hc : g.createMatcher ptr' len = .ok (code, g')) : g'.Lodged ptr bytes := by
  rcases createMatcher_cases hc with rfl | ⟨rs, rfl⟩
  · exact h
  · exact h.congr rfl rfl

theorem destroyMatcher (h : g.Lodged ptr bytes) (handle : Int32) :
    (g.destroyMatcher handle).Lodged ptr bytes := by
  unfold Guest.destroyMatcher
  split
  · exact h.congr rfl rfl
  · exact h

theorem writeResult (h : g.Lodged ptr bytes) (hs : g.Sound) {kept : List String}
    {ptr' len : Nat} (hw : g.writeResult kept = .ok (ptr', len, g')) : g'.Lodged ptr bytes := by
  rcases writeResult_cases hw with rfl | ⟨result, heap, memory, m, ha, ho, rfl⟩
  · exact h
  · obtain ⟨hlodged, hapart⟩ := h.handedOut (hs.heap.alloc? ha)
    exact hlodged.overwrite ho hapart

/-- A batch filter writes its result into memory of its own, and its descriptor where it is
    told to. -/
theorem batchFilter (h : g.Lodged ptr bytes) (hs : g.Sound) {handle ptr' len info : Int32}
    (hapart : Memory.Apart ptr bytes.length (word info) Instance.descriptorSize) :
    (g.batchFilter handle ptr' len info).2.Lodged ptr bytes := by
  rcases g.batchFilter_cases handle ptr' len info with
    heq | ⟨kept, resultPtr, resultLen, g', hw, heq | ⟨m, ho, heq⟩⟩
  · rwa [heq]
  · rw [heq]
    exact h.writeResult hs hw
  · rw [heq]
    exact (h.writeResult hs hw).overwrite ho hapart

end Lodged

/-! ## Blocks that a batch filter adds -/

/-- A batch filter takes no block back. -/
theorem Sound.live_subset_batchFilter {g : Guest} (hs : g.Sound) (handle ptr len info : Int32) :
    g.heap.live ⊆ (g.batchFilter handle ptr len info).2.heap.live := by
  have hresult : ∀ kept resultPtr resultLen g',
      g.writeResult kept = .ok (resultPtr, resultLen, g') → g.heap.live ⊆ g'.heap.live := by
    intro kept resultPtr resultLen g' hw b hb
    rcases writeResult_cases hw with rfl | ⟨result, heap, memory, m, ha, -, rfl⟩
    · exact hb
    · obtain ⟨c, -, -, hmem⟩ := (hs.heap.alloc? ha).live
      exact (hmem b).mpr (Or.inr hb)
  rcases g.batchFilter_cases handle ptr len info with
    heq | ⟨kept, resultPtr, resultLen, g', hw, heq | ⟨m, -, heq⟩⟩ <;> rw [heq]
  · exact List.Subset.refl _
  · exact hresult _ _ _ _ hw
  · exact hresult _ _ _ g' hw

/-- A block that is live after a batch filter was live before, or lies apart from all that
    were. -/
theorem Sound.apart_batchFilter {g : Guest} (hs : g.Sound) (handle ptr len info : Int32)
    {b c : Block} (hb : b ∈ (g.batchFilter handle ptr len info).2.heap.live)
    (hnew : b ∉ g.heap.live) (hc : c ∈ g.heap.live) : b.stop ≤ c.offset ∨ c.stop ≤ b.offset := by
  have hlaid := (hs.batchFilter handle ptr len info).heap.laid
  rcases Block.apart_of_mem hlaid.spaced hb (hs.live_subset_batchFilter handle ptr len info hc)
    with rfl | hapart
  · exact absurd hc hnew
  · exact hapart

end Guest

end PathSieve

/-
  Memory that a host takes from a guest.

  A host asks for as many bytes as it has, for no more than a signed length can say, and
  for none if it has none. `Guest.take?` is what comes of it, and `Taken` what can be
  relied on: the bytes lie inside the memory and apart from everything that is live, and
  giving them back undoes the taking.
-/
import PathSieve.Proofs.Sandbox.Sound

namespace PathSieve.Guest

/-- Take memory for `size` bytes, as a host does: where it is, and the guest after it. No
    bytes take no memory. -/
def take? (g : Guest) (size : Nat) : Option (Nat × Guest) :=
  if size = 0 then some (0, g)
  else if Instance.maxAllocation < size then none
  else (g.heap.alloc? g.memory size).map fun r => (r.1, { g with heap := r.2.1, memory := r.2.2 })

/-- The guest with bytes written into its memory. -/
def holding (g : Guest) (ptr : Nat) (bytes : List UInt8) : Guest :=
  { g with memory := g.memory.store ptr bytes }

@[simp] theorem holding_heap (g : Guest) (ptr : Nat) (bytes : List UInt8) :
    (g.holding ptr bytes).heap = g.heap := rfl

@[simp] theorem holding_rules (g : Guest) (ptr : Nat) (bytes : List UInt8) :
    (g.holding ptr bytes).rules = g.rules := rfl

/-- The guest with another heap. -/
def withHeap (g : Guest) (h : Heap) : Guest :=
  { g with heap := h }

/-- What can be relied on when `size` bytes at `ptr` have been taken. -/
structure Taken (g : Guest) (size ptr : Nat) (g' : Guest) : Prop where
  sound : g'.Sound
  name_eq : g'.name = g.name
  rules_eq : g'.rules = g.rules
  later : g.memory.Later g'.memory
  cells_eq : g'.memory.cells = g.memory.cells
  size_le : size ≤ Instance.maxAllocation
  ptr_lt : ptr < 0x100000000
  ptr_pos : 0 < size → 0 < ptr
  inside : ptr + size ≤ g'.memory.size
  apart : ∀ b ∈ g.heap.live, b.stop ≤ ptr ∨ ptr + size ≤ b.offset
  live : 0 < size → ∃ b ∈ g'.heap.live, b.offset = ptr ∧ size ≤ b.size
  restores : 0 < size → g'.heap.dealloc ptr size = .ok g.heap
  heap_eq : size = 0 → g'.heap = g.heap

theorem Sound.take? {g g' : Guest} {size ptr : Nat} (hs : g.Sound)
    (ht : g.take? size = some (ptr, g')) : Taken g size ptr g' := by
  unfold Guest.take? at ht
  split at ht
  · next hsize =>
    subst hsize
    simp only [Option.some.injEq, Prod.mk.injEq] at ht
    obtain ⟨rfl, rfl⟩ := ht
    exact ⟨hs, rfl, rfl, .refl _, rfl, by decide, by decide, by simp, by simp,
      fun b _ => Or.inr (Nat.zero_le _), by simp, by simp, fun _ => rfl⟩
  next hsize =>
  split at ht
  · simp at ht
  next hmax =>
  obtain ⟨⟨ptr', heap, memory⟩, ha, he⟩ := Option.map_eq_some_iff.mp ht
  simp only [Prod.mk.injEq] at he
  obtain ⟨rfl, rfl⟩ := he
  have h := hs.heap.alloc? ha
  obtain ⟨b, hoff, hsz, hmem⟩ := h.live
  have hbase := h.base_le
  have hstop := h.stop_le
  refine ⟨⟨h.sound, hs.rules⟩, rfl, rfl, h.later, h.cells_eq, Nat.le_of_not_lt hmax, ?_, ?_,
    h.inside, h.apart, ?_, fun _ => h.restores, fun h0 => absurd h0 hsize⟩
  · simp only [Heap.lastPlace] at hstop
    omega
  · intro _
    simp only [Heap.base] at hbase
    omega
  · exact fun _ => ⟨b, (hmem b).mpr (Or.inl rfl), hoff, hsz⟩

/-- Taking memory takes no block back. -/
theorem Sound.live_subset_take? {g g' : Guest} {size ptr : Nat} (hs : g.Sound)
    (ht : g.take? size = some (ptr, g')) : g.heap.live ⊆ g'.heap.live := by
  unfold Guest.take? at ht
  split at ht
  · simp only [Option.some.injEq, Prod.mk.injEq] at ht
    rw [← ht.2]
    exact List.Subset.refl _
  split at ht
  · simp at ht
  obtain ⟨⟨ptr', heap, memory⟩, ha, he⟩ := Option.map_eq_some_iff.mp ht
  simp only [Prod.mk.injEq] at he
  obtain ⟨-, rfl⟩ := he
  obtain ⟨b, -, -, hmem⟩ := (hs.heap.alloc? ha).live
  exact fun c hc => (hmem c).mpr (Or.inr hc)

namespace Taken

variable {g g' : Guest} {size ptr : Nat}

theorem size_lt (h : Taken g size ptr g') : size < 0x80000000 := by
  have := h.size_le
  simp only [Instance.maxAllocation] at this
  omega

/-- What is taken later lies apart from what was taken before. -/
theorem apart_of_taken {g₁ g₂ : Guest} {size' ptr' : Nat} (h : Taken g size ptr g')
    (hpos : 0 < size) (hheap : g₁.heap = g'.heap) (h' : Taken g₁ size' ptr' g₂) :
    ptr + size ≤ ptr' ∨ ptr' + size' ≤ ptr := by
  obtain ⟨b, hb, hoff, hsz⟩ := h.live hpos
  have := h'.apart b (hheap ▸ hb)
  simp only [Block.stop] at this
  omega

end Taken

end PathSieve.Guest

/-
  Whether there is room for several stretches of memory at once.

  A host takes memory for one thing after another and gives it back in the reverse order,
  so what matters is whether the sizes it needs can be taken one after the other
  (`hasRoom`). What is written into the memory has no part in that. While nothing is free
  below the top, blocks are stacked, and there is room as long as the padded sizes stay
  below a limit that only the ceiling of the memory gives (`Stacked.hasRoom_eq`); how far the
  memory has grown already makes no difference.
-/
import Mathlib.Data.List.Forall2
import PathSieve.Proofs.Sandbox.Taking

namespace PathSieve.Block

/-- A smaller block finds room where a larger one does. -/
theorem carve?_isSome_mono {size size' : Nat} (hle : size' ≤ size) {bs : List Block}
    (h : (carve? size bs).isSome) : (carve? size' bs).isSome := by
  induction bs with
  | nil => simp [carve?] at h
  | cons b bs ih =>
    rw [carve?] at h ⊢
    split at h
    · rw [if_pos (by omega)]; rfl
    · split
      · rfl
      · rw [Option.isSome_map] at h ⊢
        exact ih h

end PathSieve.Block

namespace PathSieve.Heap

theorem roundUp?_mono {size size' rounded : Nat} (hle : size' ≤ size)
    (h : roundUp? size = some rounded) :
    ∃ rounded', roundUp? size' = some rounded' ∧ rounded' ≤ rounded := by
  obtain ⟨hlast, rfl⟩ := roundUp?_eq_some_iff.mp h
  refine ⟨_, roundUp?_eq_some_iff.mpr ⟨by omega, rfl⟩, ?_⟩
  exact Nat.mul_le_mul_right _ (Nat.div_le_div_right (by omega))

/-- A memory can be grown up to its ceiling, from wherever it is. -/
theorem cover?_isSome_iff {m : Memory} {stop : Nat} :
    (cover? m stop).isSome ↔ stop ≤ m.size ∨ stop ≤ pageSize * m.maxPages := by
  unfold cover?
  split
  · next hle => simp [hle]
  next hlt =>
  simp only [Memory.size, pageSize] at hlt ⊢
  unfold Memory.grow?
  by_cases hpages : m.pages + (stop - 65536 * m.pages + (65536 - 1)) / 65536 ≤ m.maxPages
  · simp only [if_pos hpages, Option.isSome_some, true_iff]; omega
  · simp only [if_neg hpages, Option.isSome_none, Bool.false_eq_true, false_iff]; omega

/-- Bytes can be had from a free block or above the top. -/
theorem alloc?_isSome_iff {h : Heap} {m : Memory} {size : Nat} :
    (h.alloc? m size).isSome ↔
      0 < size ∧ ∃ rounded, roundUp? size = some rounded ∧
        ((Block.carve? rounded h.free).isSome ∨
          (h.top + rounded ≤ lastPlace ∧ (cover? m (h.top + rounded)).isSome)) := by
  unfold alloc?
  by_cases hsize : size = 0
  · simp [hsize]
  rw [if_neg hsize]
  cases roundUp? size with
  | none => simp
  | some rounded =>
    cases hcarve : Block.carve? rounded h.free with
    | some r => simp [hcarve, Nat.pos_of_ne_zero hsize]
    | none =>
      by_cases hlast : lastPlace < h.top + rounded
      · simp [hcarve, hlast, Nat.not_le.mpr hlast]
      · cases hcover : cover? m (h.top + rounded) <;>
          simp [hcarve, hlast, hcover, Nat.pos_of_ne_zero hsize, Nat.le_of_not_lt hlast]

/-- Fewer bytes can be had where more can, also when the memory has grown. -/
theorem alloc?_isSome_mono {h : Heap} {m m' : Memory} {size size' : Nat} (hpos : 0 < size')
    (hle : size' ≤ size) (hm : m.Later m') (ha : (h.alloc? m size).isSome) :
    (h.alloc? m' size').isSome := by
  rw [alloc?_isSome_iff] at ha ⊢
  obtain ⟨-, rounded, hround, hroom⟩ := ha
  obtain ⟨rounded', hround', hle'⟩ := roundUp?_mono hle hround
  refine ⟨hpos, rounded', hround', hroom.imp (Block.carve?_isSome_mono hle') ?_⟩
  intro hparts
  obtain ⟨hlast, hcover⟩ := hparts
  refine ⟨by omega, ?_⟩
  rw [cover?_isSome_iff] at hcover ⊢
  have := hm.size_le
  rw [hm.maxPages_eq]
  omega

/-- A size with its padding to whole units. -/
def padded (size : Nat) : Nat :=
  (size + (unit - 1)) / unit * unit

theorem padded_mono {size size' : Nat} (h : size' ≤ size) : padded size' ≤ padded size :=
  Nat.mul_le_mul_right _ (Nat.div_le_div_right (by omega))

theorem roundUp?_eq_padded {size : Nat} (h : size ≤ Instance.maxAllocation) :
    roundUp? size = some (padded size) := by
  refine roundUp?_eq_some_iff.mpr ⟨?_, rfl⟩
  simp only [Instance.maxAllocation] at h
  simp only [unit, lastPlace]
  omega

/-- The bytes that sizes take up with their padding. -/
def stack : List Nat → Nat
  | [] => 0
  | size :: sizes => padded size + stack sizes

theorem stack_append (sizes more : List Nat) :
    stack (sizes ++ more) = stack sizes + stack more := by
  induction sizes with
  | nil => exact (Nat.zero_add _).symm
  | cons size sizes ih => rw [List.cons_append, stack, ih, stack, Nat.add_assoc]

/-- Is there room for sizes between a top and a limit? -/
def fits (limit top : Nat) (sizes : List Nat) : Bool :=
  sizes.all (· ≤ Instance.maxAllocation) && top + stack sizes ≤ limit

theorem fits_iff {limit top : Nat} {sizes : List Nat} :
    fits limit top sizes = true ↔
      (∀ size ∈ sizes, size ≤ Instance.maxAllocation) ∧ top + stack sizes ≤ limit := by
  simp [fits]

theorem stack_mono {sizes sizes' : List Nat} (h : List.Forall₂ (· ≤ ·) sizes' sizes) :
    stack sizes' ≤ stack sizes := by
  induction h with
  | nil => exact Nat.le_refl _
  | cons hle _ ih => exact Nat.add_le_add (padded_mono hle) ih

theorem forall_le_mono {sizes sizes' : List Nat} {bound : Nat}
    (h : List.Forall₂ (· ≤ ·) sizes' sizes) (hall : ∀ size ∈ sizes, size ≤ bound) :
    ∀ size ∈ sizes', size ≤ bound := by
  induction h with
  | nil => exact hall
  | cons hle _ ih =>
    rw [List.forall_mem_cons] at hall ⊢
    exact ⟨Nat.le_trans hle hall.1, ih hall.2⟩

/-- There is room for smaller sizes where there is for larger ones. -/
theorem fits_mono {limit top : Nat} {sizes sizes' : List Nat}
    (hle : List.Forall₂ (· ≤ ·) sizes' sizes) (h : fits limit top sizes = true) :
    fits limit top sizes' = true := by
  rw [fits_iff] at h ⊢
  exact ⟨forall_le_mono hle h.1,
    Nat.le_trans (Nat.add_le_add_left (stack_mono hle) top) h.2⟩

/-- The limit below which blocks can be stacked under a ceiling of the memory. -/
def limit (maxPages : Nat) : Nat :=
  min lastPlace (pageSize * maxPages)

theorem grow?_store (m : Memory) (start : Nat) (bytes : List UInt8) (delta : Nat) :
    (m.store start bytes).grow? delta = (m.grow? delta).map (·.store start bytes) := by
  show (if m.pages + delta ≤ m.maxPages then _ else none) = (if _ then _ else none).map _
  split <;> rfl

theorem cover?_store (m : Memory) (start : Nat) (bytes : List UInt8) (stop : Nat) :
    cover? (m.store start bytes) stop = (cover? m stop).map (·.store start bytes) := by
  unfold cover?
  rw [Memory.size_store, grow?_store]
  split <;> rfl

/-- What the memory holds has no part in handing out. -/
theorem alloc?_store (h : Heap) (m : Memory) (start : Nat) (bytes : List UInt8) (size : Nat) :
    h.alloc? (m.store start bytes) size =
      (h.alloc? m size).map fun r => (r.1, r.2.1, r.2.2.store start bytes) := by
  unfold alloc?
  split
  · rfl
  cases roundUp? size with
  | none => rfl
  | some rounded =>
    simp only
    cases Block.carve? rounded h.free with
    | some r => rfl
    | none =>
      simp only
      split
      · rfl
      rw [cover?_store]
      cases cover? m (h.top + rounded) <;> rfl

end PathSieve.Heap

namespace PathSieve.Guest

/-- Can memory be taken for all of the sizes, one after the other? -/
def hasRoom (g : Guest) : List Nat → Bool
  | [] => true
  | size :: sizes =>
    match g.take? size with
    | none => false
    | some (_, g) => g.hasRoom sizes

theorem take?_holding (g : Guest) (ptr : Nat) (bytes : List UInt8) (size : Nat) :
    (g.holding ptr bytes).take? size =
      (g.take? size).map fun r => (r.1, r.2.holding ptr bytes) := by
  unfold take? holding
  simp only [Heap.alloc?_store, Option.map_map]
  split
  · rfl
  split
  · rfl
  rw [Option.map_map]
  rfl

theorem hasRoom_singleton (g : Guest) (size : Nat) :
    g.hasRoom [size] = (g.take? size).isSome := by
  simp only [hasRoom]
  cases g.take? size <;> rfl

theorem hasRoom_cons_of_none {g : Guest} {size : Nat} (h : g.take? size = none)
    (sizes : List Nat) : g.hasRoom (size :: sizes) = false := by
  rw [hasRoom, h]

theorem hasRoom_cons_of_some {g g' : Guest} {size ptr : Nat}
    (h : g.take? size = some (ptr, g')) (sizes : List Nat) :
    g.hasRoom (size :: sizes) = g'.hasRoom sizes := by
  rw [hasRoom, h]

@[simp] theorem hasRoom_holding (g : Guest) (ptr : Nat) (bytes : List UInt8)
    (sizes : List Nat) : (g.holding ptr bytes).hasRoom sizes = g.hasRoom sizes := by
  induction sizes generalizing g with
  | nil => rfl
  | cons size sizes ih =>
    cases htake : g.take? size with
    | none =>
      rw [hasRoom_cons_of_none htake, hasRoom_cons_of_none (by rw [take?_holding, htake]; rfl)]
    | some r =>
      rw [hasRoom_cons_of_some htake, hasRoom_cons_of_some (by rw [take?_holding, htake]; rfl),
        ih]

/-- There is room for fewer bytes where there is for more, also when the memory has grown. -/
theorem hasRoom_singleton_mono {g g' : Guest} {size size' : Nat} (hheap : g'.heap = g.heap)
    (hm : g.memory.Later g'.memory) (hle : size' ≤ size) (h : g.hasRoom [size] = true) :
    g'.hasRoom [size'] = true := by
  rw [hasRoom_singleton] at h ⊢
  unfold take? at h ⊢
  by_cases hzero : size' = 0
  · rw [if_pos hzero]
    rfl
  rw [if_neg hzero]
  rw [if_neg (by omega)] at h
  by_cases hmax : Instance.maxAllocation < size
  · simp [if_pos hmax] at h
  rw [if_neg hmax, Option.isSome_map] at h
  rw [if_neg (by omega), Option.isSome_map, hheap]
  exact Heap.alloc?_isSome_mono (Nat.pos_of_ne_zero hzero) hle hm h

/-- Blocks are stacked below a limit: nothing is free below the top. -/
structure Stacked (g : Guest) (limit top : Nat) : Prop where
  free_eq : g.heap.free = []
  top_eq : g.heap.top = top
  pages_le : g.memory.pages ≤ g.memory.maxPages
  limit_eq : Heap.limit g.memory.maxPages = limit

/-- One more stretch is stacked on the others as long as it stays below the limit. -/
theorem Stacked.take? {g : Guest} {limit top : Nat} (h : g.Stacked limit top)
    (htop : top ≤ limit) (size : Nat) :
    if size ≤ Instance.maxAllocation ∧ top + Heap.padded size ≤ limit then
      ∃ ptr g', g.take? size = some (ptr, g') ∧ g'.Stacked limit (top + Heap.padded size)
    else g.take? size = none := by
  obtain ⟨hfree, htop', hpages, hlimit⟩ := h
  unfold Guest.take?
  by_cases hsize : size = 0
  · subst hsize
    rw [if_pos ⟨Nat.zero_le _, htop⟩, if_pos rfl]
    exact ⟨0, g, rfl, hfree, htop', hpages, hlimit⟩
  rw [if_neg hsize]
  by_cases hmax : Instance.maxAllocation < size
  · rw [if_neg (by omega), if_pos hmax]
  rw [if_neg hmax]
  have hround := Heap.roundUp?_eq_padded (Nat.le_of_not_lt hmax)
  have hlimit' := hlimit
  unfold Heap.limit at hlimit'
  have hcover := @Heap.cover?_isSome_iff g.memory (top + Heap.padded size)
  have hsize' : g.memory.size ≤ pageSize * g.memory.maxPages := Nat.mul_le_mul_left _ hpages
  unfold Heap.alloc?
  simp only [if_neg hsize, hround, hfree, Block.carve?, htop']
  split
  · next hfits =>
    rw [if_neg (by omega)]
    obtain ⟨m, hm⟩ := Option.isSome_iff_exists.mp (hcover.mpr (by omega))
    obtain ⟨hlater, -, -⟩ := Heap.cover?_spec hm
    have hle := hlater.pages_le_max
    have hmax' := hlater.maxPages_eq
    simp only [hm, Option.map_some]
    exact ⟨top, _, rfl, rfl, rfl, by simp only; omega, by rw [← hlimit, hmax']⟩
  · next hfits =>
    split
    · rfl
    next hlast =>
    have hnone : Heap.cover? g.memory (top + Heap.padded size) = none := by
      rw [← Option.not_isSome_iff_eq_none, hcover]
      omega
    rw [hnone]
    rfl

/-- There is room as long as the padded sizes stay below the limit. -/
theorem Stacked.hasRoom_eq {g : Guest} {limit top : Nat} (h : g.Stacked limit top)
    (htop : top ≤ limit) (sizes : List Nat) : g.hasRoom sizes = Heap.fits limit top sizes := by
  rw [Bool.eq_iff_iff, Heap.fits_iff]
  induction sizes generalizing g top with
  | nil => simpa [hasRoom, Heap.stack] using htop
  | cons size sizes ih =>
    have hstep := h.take? htop size
    simp only [hasRoom, List.forall_mem_cons, Heap.stack]
    split at hstep
    · next hfits =>
      obtain ⟨ptr, g', htake, hg'⟩ := hstep
      rw [htake]
      simp only [ih hg' hfits.2]
      have := hfits.1
      constructor
      · intro hparts
        obtain ⟨hall, hsum⟩ := hparts
        exact ⟨⟨this, hall⟩, by omega⟩
      · intro hparts
        obtain ⟨⟨-, hall⟩, hsum⟩ := hparts
        exact ⟨hall, by omega⟩
    · next hfits =>
      rw [hstep]
      simp only [Bool.false_eq_true, false_iff]
      intro hparts
      obtain ⟨⟨hsize, -⟩, hsum⟩ := hparts
      exact hfits ⟨hsize, by omega⟩

end PathSieve.Guest

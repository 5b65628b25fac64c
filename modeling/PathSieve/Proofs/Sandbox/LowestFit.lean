/-
  First fit is lowest fit.

  The free blocks are the gaps between the live blocks, in order. So the first free block
  with room, or the top if there is none, is the lowest place at which a block can stand
  beside the live ones (`Laid.isLeast_firstFit`). A block is handed out exactly when it
  stops below the limit there, and the heap after it is the one that belongs to its live
  blocks (`Heap.ofLive`). How the heap has come about has no part in it
  (`Sound.alloc?_eq`).
-/
import Mathlib.Order.Bounds.Basic
import PathSieve.Proofs.Sandbox.Room

namespace PathSieve

namespace Block

/-- Can a block of a given size stand at a place, beside others? It begins at a whole unit
    from `start` on and has no place in common with them. -/
structure FitsAt {γ : Type} [Membership Block γ] (start : Nat) (others : γ) (size place : Nat) :
    Prop where
  start_le : start ≤ place
  whole : Heap.unit ∣ place
  apart : ∀ b ∈ others, b.stop ≤ place ∨ place + size ≤ b.offset

theorem fitsAt_cons {start size place : Nat} {b : Block} {bs : List Block} :
    FitsAt start (b :: bs) size place ↔
      (b.stop ≤ place ∨ place + size ≤ b.offset) ∧ FitsAt start bs size place := by
  constructor
  · intro h
    exact ⟨h.apart b (by simp), h.start_le, h.whole, fun c hc => h.apart c (by simp [hc])⟩
  · intro ⟨hb, h⟩
    refine ⟨h.start_le, h.whole, fun c hc => ?_⟩
    rcases List.mem_cons.mp hc with rfl | hc
    · exact hb
    · exact h.apart c hc

/-- Which blocks there are is all that counts. -/
theorem fitsAt_congr {γ δ : Type} [Membership Block γ] [Membership Block δ] {bs : γ} {cs : δ}
    (h : ∀ b, b ∈ bs ↔ b ∈ cs) {start size place : Nat} :
    FitsAt start bs size place ↔ FitsAt start cs size place :=
  ⟨fun hf => ⟨hf.start_le, hf.whole, fun b hb => hf.apart b ((h b).mpr hb)⟩,
    fun hf => ⟨hf.start_le, hf.whole, fun b hb => hf.apart b ((h b).mp hb)⟩⟩

/-- Where a block of a given size comes from: the first gap with room, or behind the last
    block. -/
def firstGap (start size : Nat) (bs : List Block) : Nat :=
  ((carve? size (gaps start bs)).map Prod.fst).getD (reach start bs)

theorem firstGap_cons {start size : Nat} (b : Block) (bs : List Block) :
    firstGap start size (b :: bs) =
      if start < b.offset ∧ size ≤ b.offset - start then start else firstGap b.stop size bs := by
  unfold firstGap
  rw [gaps, reach_cons]
  by_cases hgap : start < b.offset
  · rw [if_pos hgap, carve?]
    by_cases hfit : size ≤ b.offset - start
    · simp [hgap, hfit]
    · simp only [hgap, hfit, if_false, and_false, Option.map_map]
      rfl
  · simp [hgap]

/-- There is no lower place for a block than the first gap with room. -/
theorem isLeast_firstGap {start size : Nat} {bs : List Block} (h : Spaced start bs)
    (hstart : Heap.unit ∣ start) (hpos : 0 < size) :
    IsLeast {p | FitsAt start bs size p} (firstGap start size bs) := by
  induction bs generalizing start with
  | nil => exact ⟨⟨Nat.le_refl _, hstart, by simp⟩, fun p hp => hp.start_le⟩
  | cons b bs ih =>
    obtain ⟨hle, -, hoff, hunit, hbs⟩ := h
    obtain ⟨hmem, hleast⟩ := ih hbs (Nat.dvd_add hoff hunit)
    rw [firstGap_cons]
    by_cases hgap : start < b.offset ∧ size ≤ b.offset - start
    · -- the block stands before `b`, and so before all that come behind `b`
      rw [if_pos hgap]
      refine ⟨⟨Nat.le_refl _, hstart, fun c hc => Or.inr ?_⟩, fun p hp => hp.start_le⟩
      rcases List.mem_cons.mp hc with rfl | hc
      · omega
      · have := (bounds_of_mem hbs hc).1
        simp only [stop] at this
        omega
    · rw [if_neg hgap]
      have hstop : b.offset + b.size ≤ firstGap b.stop size bs := hmem.start_le
      refine ⟨fitsAt_cons.mpr ⟨Or.inl hstop, ?_, hmem.whole, hmem.apart⟩, fun p hp => ?_⟩
      · exact Nat.le_trans hle (Nat.le_trans (Nat.le_add_right _ _) hstop)
      · obtain ⟨hb, hp⟩ := fitsAt_cons.mp hp
        have hp₀ := hp.start_le
        exact hleast ⟨by omega, hp.whole, hp.apart⟩

theorem insert_perm (b : Block) (bs : List Block) : (insert b bs).Perm (b :: bs) := by
  induction bs with
  | nil => exact .refl _
  | cons c cs ih =>
    rw [insert]
    split
    · exact .refl _
    · exact (ih.cons c).trans (.swap b c cs)

end Block

namespace Memory

/-- The pages that a memory may come to have: those it may grow to, or those it has. -/
def ceiling (m : Memory) : Nat :=
  max m.pages m.maxPages

/-- The pages of a memory when it has grown, if need be, to cover all places below `stop`. -/
def pagesFor (pages stop : Nat) : Nat :=
  max pages ((stop + (pageSize - 1)) / pageSize)

/-- It is grown by no more than it takes. -/
theorem isLeast_pagesFor (pages stop : Nat) :
    IsLeast {n | pages ≤ n ∧ stop ≤ pageSize * n} (pagesFor pages stop) := by
  constructor
  · refine ⟨Nat.le_max_left _ _, ?_⟩
    simp only [pagesFor, pageSize]
    omega
  · rintro n ⟨hn, hstop⟩
    simp only [pagesFor, pageSize] at hstop ⊢
    omega

theorem pagesFor_of_le {m : Memory} {stop : Nat} (h : stop ≤ m.size) :
    pagesFor m.pages stop = m.pages := by
  simp only [size, pageSize] at h
  simp only [pagesFor, pageSize]
  omega

end Memory

namespace Heap

/-- The heap that belongs to live blocks. -/
def ofLive (live : List Block) : Heap :=
  ⟨Block.reach base live, Block.gaps base live, live⟩

theorem Laid.eq_ofLive {h : Heap} (hl : h.Laid) : h = ofLive h.live := by
  refine hl.eq_of_live_eq ⟨hl.spaced, rfl, rfl⟩ rfl

/-- The memory can be grown to cover the places below a stop that is not above its ceiling. -/
theorem cover?_eq (m : Memory) (stop : Nat) :
    cover? m stop =
      if stop ≤ pageSize * m.ceiling then some { m with pages := Memory.pagesFor m.pages stop }
      else none := by
  have hceiling : pageSize * m.ceiling = max (pageSize * m.pages) (pageSize * m.maxPages) := by
    simp only [Memory.ceiling, pageSize]
    omega
  rw [hceiling]
  unfold cover?
  by_cases hle : stop ≤ m.size
  · have hle' : stop ≤ max (pageSize * m.pages) (pageSize * m.maxPages) :=
      Nat.le_trans hle (Nat.le_max_left _ _)
    rw [if_pos hle, if_pos hle', Memory.pagesFor_of_le hle]
  rw [if_neg hle]
  simp only [Memory.size, pageSize] at hle
  unfold Memory.grow?
  have hpages : m.pages + (stop - m.size + (pageSize - 1)) / pageSize =
      Memory.pagesFor m.pages stop := by
    simp only [Memory.size, Memory.pagesFor, pageSize]
    omega
  rw [hpages]
  have hiff : Memory.pagesFor m.pages stop ≤ m.maxPages ↔
      stop ≤ max (pageSize * m.pages) (pageSize * m.maxPages) := by
    simp only [Memory.pagesFor, pageSize]
    omega
  simp only [hiff]

/-- Where first fit looks for a block: the first free block with room, or the top. -/
def firstFit (h : Heap) (size : Nat) : Nat :=
  ((Block.carve? size h.free).map Prod.fst).getD h.top

theorem Laid.firstFit_eq {h : Heap} (hl : h.Laid) (size : Nat) :
    h.firstFit size = Block.firstGap base size h.live := by
  unfold firstFit Block.firstGap
  rw [hl.free_eq, hl.top_eq]

/-- First fit is lowest fit. -/
theorem Laid.isLeast_firstFit {h : Heap} (hl : h.Laid) {size : Nat} (hpos : 0 < size) :
    IsLeast {p | Block.FitsAt base h.live size p} (h.firstFit size) := by
  rw [hl.firstFit_eq]
  exact Block.isLeast_firstGap hl.spaced unit_dvd_base hpos

theorem padded_pos {size : Nat} (h : 0 < size) : 0 < padded size := by
  simp only [padded, unit]
  omega

/-- A size that cannot be rounded up has no place below the last one. -/
theorem lastPlace_lt_of_roundUp?_none {size : Nat} (h : roundUp? size = none) :
    lastPlace < padded size := by
  unfold roundUp? at h
  split at h
  · simp at h
  · next hlast =>
    simp only [unit, lastPlace, padded] at hlast ⊢
    omega

/-- A free block with room stops below the limit, for a live block stands behind it. -/
theorem Sound.firstFit_add_le {h : Heap} {m : Memory} (hs : h.Sound m) {size ptr : Nat}
    {free : List Block} (hc : Block.carve? size h.free = some (ptr, free)) :
    ptr + size ≤ lastPlace ∧ ptr + size ≤ m.size := by
  rw [hs.laid.free_eq] at hc
  obtain ⟨cs, ds, hlive, -, -, -, hds, hne, -⟩ :=
    Block.carve?_gaps hs.laid.spaced unit_dvd_base hc
  obtain ⟨d, ds, rfl⟩ := List.exists_cons_of_ne_nil hne
  have hd : d ∈ h.live := by
    rw [hlive]
    simp
  have hle := hds.1
  have hin := hs.inside d hd
  have htop := Nat.le_trans (hs.laid.stop_le_top hd) hs.top_le
  simp only [Block.stop] at hin htop
  omega

/-- Handing out in terms of the live blocks alone. -/
theorem Sound.alloc?_eq {h : Heap} {m : Memory} (hs : h.Sound m) {size : Nat} (hpos : 0 < size) :
    h.alloc? m size =
      if h.firstFit (padded size) + padded size ≤ limit m.ceiling then
        some (h.firstFit (padded size),
          ofLive (Block.insert ⟨h.firstFit (padded size), padded size⟩ h.live),
          { m with pages := Memory.pagesFor m.pages (h.firstFit (padded size) + padded size) })
      else none := by
  have hceiling : m.size ≤ pageSize * m.ceiling :=
    Nat.mul_le_mul_left _ (Nat.le_max_left _ _)
  -- whatever is handed out, the heap is the one that belongs to its live blocks
  have hheap : ∀ {ptr h' m'}, h.alloc? m size = some (ptr, h', m') → h' = ofLive h'.live :=
    fun ha => (hs.alloc? ha).sound.laid.eq_ofLive
  unfold Heap.alloc? at hheap ⊢
  rw [if_neg (Nat.pos_iff_ne_zero.mp hpos)] at hheap ⊢
  cases hround : roundUp? size with
  | none =>
    have := lastPlace_lt_of_roundUp?_none hround
    rw [if_neg (by simp only [limit]; omega)]
  | some rounded =>
    obtain rfl : rounded = padded size := (roundUp?_eq_some_iff.mp hround).2
    simp only [hround] at hheap ⊢
    cases hcarve : Block.carve? (padded size) h.free with
    | some r =>
      obtain ⟨ptr, free⟩ := r
      obtain ⟨hlast, hin⟩ := hs.firstFit_add_le hcarve
      have hfit : h.firstFit (padded size) = ptr := by simp [firstFit, hcarve]
      simp only [hcarve] at hheap ⊢
      rw [hfit, if_pos (by simp only [limit]; omega), Memory.pagesFor_of_le hin]
      rw [hheap rfl]
    | none =>
      have hfit : h.firstFit (padded size) = h.top := by simp [firstFit, hcarve]
      simp only [hcarve] at hheap ⊢
      rw [hfit]
      by_cases hlast : lastPlace < h.top + padded size
      · rw [if_pos hlast, if_neg (by simp only [limit]; omega)]
      rw [if_neg hlast] at hheap ⊢
      simp only [cover?_eq] at hheap ⊢
      by_cases hcover : h.top + padded size ≤ pageSize * m.ceiling
      · rw [if_pos hcover] at hheap ⊢
        rw [if_pos (by simp only [limit]; omega)]
        simp only
        rw [hheap rfl]
      · rw [if_neg hcover, if_neg (by simp only [limit]; omega)]

/-- One more block is live when memory has been handed out, and it has the size that was asked
    for with its padding. -/
theorem Sound.live_perm_alloc? {h h' : Heap} {m m' : Memory} (hs : h.Sound m) {size ptr : Nat}
    (ha : h.alloc? m size = some (ptr, h', m')) : h'.live.Perm (⟨ptr, padded size⟩ :: h.live) := by
  have hpos : 0 < size := (alloc?_isSome_iff.mp (by rw [ha]; rfl)).1
  rw [hs.alloc?_eq hpos] at ha
  split at ha
  · simp only [Option.some.injEq, Prod.mk.injEq] at ha
    obtain ⟨rfl, rfl, -⟩ := ha
    exact Block.insert_perm _ _
  · simp at ha

end Heap

end PathSieve

/-
  Handing out a block.

  A block comes out of the first gap that has room for it, or is put at the top. Either
  way the heap after it is laid out well, its live blocks are the old ones and the new
  one, and the memory covers the new block (`Laid.alloc?`). Whether there is room depends
  on the memory only through how far it can grow.
-/
import PathSieve.Proofs.Sandbox.TakeBack

namespace PathSieve.Block

/-- Cutting a block off the first gap with room gives the gaps that are left when the
    block is live. -/
theorem carve?_gaps {start size ptr : Nat} {bs free : List Block} (h : Spaced start bs)
    (hstart : Heap.unit ∣ start) (hc : carve? size (gaps start bs) = some (ptr, free)) :
    ∃ cs ds, bs = cs ++ ds ∧ Spaced start cs ∧ reach start cs = ptr ∧ Heap.unit ∣ ptr ∧
      Spaced (ptr + size) ds ∧ ds ≠ [] ∧ free = gaps start (cs ++ ⟨ptr, size⟩ :: ds) := by
  induction bs generalizing start free with
  | nil => simp [carve?] at hc
  | cons b bs ih =>
    obtain ⟨hle, hsz, hoff, hszu, hbs⟩ := h
    have hstop : Heap.unit ∣ b.stop := Nat.dvd_add hoff hszu
    -- the block comes from a gap behind `b`
    have later : ∀ free', carve? size (gaps b.stop bs) = some (ptr, free') →
        ∃ cs ds, b :: bs = cs ++ ds ∧ Spaced start cs ∧ reach start cs = ptr ∧
          Heap.unit ∣ ptr ∧ Spaced (ptr + size) ds ∧ ds ≠ [] ∧
          gaps start (cs ++ ⟨ptr, size⟩ :: ds) =
            if start < b.offset then ⟨start, b.offset - start⟩ :: free' else free' := by
      intro free' hc'
      obtain ⟨cs, ds, rfl, hcs, hr, hu, hds, hne, rfl⟩ := ih hbs hstop hc'
      exact ⟨b :: cs, ds, rfl, ⟨hle, hsz, hoff, hszu, hcs⟩, hr, hu, hds, hne, by
        rw [List.cons_append, gaps]⟩
    by_cases hgap : start < b.offset
    · rw [gaps, if_pos hgap, carve?] at hc
      by_cases hfit : size ≤ b.offset - start
      · simp only [hfit, if_pos, Option.some.injEq, Prod.mk.injEq] at hc
        obtain ⟨rfl, rfl⟩ := hc
        refine ⟨[], b :: bs, rfl, trivial, rfl, hstart, ?_, by simp, ?_⟩
        · exact ⟨by omega, hsz, hoff, hszu, hbs⟩
        · have hend : (⟨start, size⟩ : Block).stop = start + size := rfl
          rw [List.nil_append, gaps, if_neg (Nat.lt_irrefl _), gaps, hend]
          by_cases hrest : size < b.offset - start
          · rw [if_pos hrest, if_pos (by omega), Nat.sub_add_eq]
          · rw [if_neg hrest, if_neg (by omega)]
      · rw [if_neg hfit] at hc
        obtain ⟨⟨p, free'⟩, hc', he⟩ := Option.map_eq_some_iff.mp hc
        simp only [Prod.mk.injEq] at he
        obtain ⟨rfl, rfl⟩ := he
        obtain ⟨cs, ds, h₁, h₂, h₃, h₄, h₅, h₆, h₇⟩ := later free' hc'
        exact ⟨cs, ds, h₁, h₂, h₃, h₄, h₅, h₆, by rw [h₇, if_pos hgap]⟩
    · rw [gaps, if_neg hgap] at hc
      obtain ⟨cs, ds, h₁, h₂, h₃, h₄, h₅, h₆, h₇⟩ := later free hc
      exact ⟨cs, ds, h₁, h₂, h₃, h₄, h₅, h₆, by rw [h₇, if_neg hgap]⟩

/-- A block that fits between others may be live beside them. -/
theorem spaced_between {start ptr size : Nat} {cs ds : List Block} (hcs : Spaced start cs)
    (hptr : reach start cs ≤ ptr) (hu : Heap.unit ∣ ptr) (hpos : 0 < size)
    (hunit : Heap.unit ∣ size) (hds : Spaced (ptr + size) ds) :
    Spaced start (cs ++ ⟨ptr, size⟩ :: ds) :=
  spaced_append.mpr ⟨hcs, hptr, hpos, hu, hunit, hds⟩

theorem unit_dvd_reach {start : Nat} {bs : List Block} (h : Spaced start bs)
    (hstart : Heap.unit ∣ start) : Heap.unit ∣ reach start bs := by
  induction bs generalizing start with
  | nil => exact hstart
  | cons b bs ih =>
    obtain ⟨-, -, hoff, hszu, hbs⟩ := h
    exact ih hbs (Nat.dvd_add hoff hszu)

end PathSieve.Block

namespace PathSieve.Heap

theorem unit_dvd_base : unit ∣ base := ⟨2, rfl⟩

theorem roundUp?_eq_some_iff {size rounded : Nat} :
    roundUp? size = some rounded ↔
      size + (unit - 1) ≤ lastPlace ∧ rounded = (size + (unit - 1)) / unit * unit := by
  unfold roundUp?
  by_cases h : size + (unit - 1) ≤ lastPlace
  · rw [if_pos h, Option.some.injEq]
    exact ⟨fun he => ⟨h, he.symm⟩, fun he => he.2.symm⟩
  · rw [if_neg h]
    exact ⟨fun he => by simp at he, fun he => absurd he.1 h⟩

/-- What rounding up does: whole units, no fewer bytes, and less than a unit more. -/
theorem roundUp?_spec {size rounded : Nat} (h : roundUp? size = some rounded) :
    unit ∣ rounded ∧ size ≤ rounded ∧ rounded < size + unit := by
  obtain ⟨-, rfl⟩ := roundUp?_eq_some_iff.mp h
  refine ⟨Nat.dvd_mul_left _ _, ?_, ?_⟩ <;> simp only [unit] <;> omega

end PathSieve.Heap

namespace PathSieve.Memory

/-- A memory some time after another: no smaller, and grown only as far as it may. -/
structure Later (m m' : Memory) : Prop where
  maxPages_eq : m'.maxPages = m.maxPages
  pages_le : m.pages ≤ m'.pages
  pages_le_max : m'.pages ≤ max m.pages m.maxPages

namespace Later

theorem refl (m : Memory) : Later m m := ⟨rfl, Nat.le_refl _, Nat.le_max_left _ _⟩

theorem trans {m m' m'' : Memory} (h : Later m m') (h' : Later m' m'') : Later m m'' := by
  refine ⟨h'.maxPages_eq.trans h.maxPages_eq, Nat.le_trans h.pages_le h'.pages_le, ?_⟩
  have := h.pages_le_max
  have := h'.pages_le_max
  rw [h.maxPages_eq] at this
  omega

theorem size_le {m m' : Memory} (h : Later m m') : m.size ≤ m'.size :=
  Nat.mul_le_mul_left _ h.pages_le

theorem store (m : Memory) (start : Nat) (bytes : List UInt8) : Later m (m.store start bytes) :=
  ⟨rfl, Nat.le_refl _, Nat.le_max_left _ _⟩

end Later

/-- A memory grows by whole pages, and keeps what it holds. -/
theorem grow?_spec {m m' : Memory} {delta : Nat} (h : m.grow? delta = some m') :
    m.Later m' ∧ m'.cells = m.cells ∧ m'.pages = m.pages + delta := by
  unfold grow? at h
  split at h
  · next hmax =>
    rw [Option.some.injEq] at h
    subst h
    exact ⟨⟨rfl, Nat.le_add_right _ _, Nat.le_trans hmax (Nat.le_max_right _ _)⟩, rfl, rfl⟩
  · simp at h

end PathSieve.Memory

namespace PathSieve.Heap

theorem cover?_spec {m m' : Memory} {stop : Nat} (h : cover? m stop = some m') :
    m.Later m' ∧ m'.cells = m.cells ∧ stop ≤ m'.size := by
  unfold cover? at h
  split at h
  · next hle =>
    rw [Option.some.injEq] at h
    subst h
    exact ⟨.refl m, rfl, hle⟩
  · next hlt =>
    obtain ⟨hlater, hcells, hpages⟩ := Memory.grow?_spec h
    refine ⟨hlater, hcells, ?_⟩
    have := Nat.div_add_mod (stop - m.size + (pageSize - 1)) pageSize
    have := Nat.mod_lt (stop - m.size + (pageSize - 1)) (show 0 < pageSize by decide)
    simp only [Memory.size, hpages, Nat.mul_add] at hlt this ⊢
    simp only [pageSize] at *
    omega

/-- A heap laid out well in a memory that holds all its live blocks. -/
structure Sound (h : Heap) (m : Memory) : Prop where
  laid : h.Laid
  inside : ∀ b ∈ h.live, b.stop ≤ m.size
  top_le : h.top ≤ lastPlace

theorem sound_empty (m : Memory) : Sound empty m :=
  ⟨laid_empty, by simp [empty], by decide⟩

namespace Sound

theorem later {h : Heap} {m m' : Memory} (hs : h.Sound m) (hm : m.Later m') : h.Sound m' :=
  ⟨hs.laid, fun b hb => Nat.le_trans (hs.inside b hb) hm.size_le, hs.top_le⟩

theorem dealloc {h h' : Heap} {m : Memory} {ptr size : Nat} (hs : h.Sound m)
    (hd : h.dealloc ptr size = .ok h') : h'.Sound m := by
  obtain ⟨hl', hsub⟩ := hs.laid.dealloc hd
  refine ⟨hl', fun b hb => hs.inside b (hsub b hb), ?_⟩
  rcases hl'.top_cases with htop | ⟨b, hb, htop⟩
  · rw [htop]
    decide
  · rw [htop]
    exact Nat.le_trans (hs.laid.stop_le_top (hsub b hb)) hs.top_le

/-- A memory of at least one page covers the heap. -/
theorem top_le_size {h : Heap} {m : Memory} (hs : h.Sound m) (hone : 1 ≤ m.pages) :
    h.top ≤ m.size := by
  rcases hs.laid.top_cases with htop | ⟨b, hb, htop⟩
  · simp only [htop, base, Memory.size, pageSize]
    omega
  · rw [htop]
    exact hs.inside b hb

end Sound

/-- What it means that `size` bytes at `ptr` are handed out. -/
structure HandedOut (h : Heap) (m : Memory) (size ptr : Nat) (h' : Heap) (m' : Memory) :
    Prop where
  sound : h'.Sound m'
  /-- Taking the bytes back undoes it. -/
  restores : h'.dealloc ptr size = .ok h
  base_le : base ≤ ptr
  stop_le : ptr + size ≤ lastPlace
  inside : ptr + size ≤ m'.size
  /-- No live block is touched. -/
  apart : ∀ b ∈ h.live, b.stop ≤ ptr ∨ ptr + size ≤ b.offset
  /-- The new block is live, and all others are as they were. -/
  live : ∃ b : Block, b.offset = ptr ∧ size ≤ b.size ∧ ∀ c, c ∈ h'.live ↔ c = b ∨ c ∈ h.live
  later : m.Later m'
  cells_eq : m'.cells = m.cells

/-- A block that has been put between the live ones has been handed out. -/
theorem handedOut_between {h h' : Heap} {m m' : Memory} {size rounded ptr : Nat}
    {cs ds : List Block} (hs : h.Sound m) (hsize : roundUp? size = some rounded)
    (hlive : h.live = cs ++ ds) (hlive' : h'.live = cs ++ ⟨ptr, rounded⟩ :: ds)
    (hl' : h'.Laid) (htop : h'.top ≤ lastPlace) (hin : ptr + rounded ≤ m'.size)
    (hm : m.Later m') (hcells : m'.cells = m.cells) : HandedOut h m size ptr h' m' := by
  have hsp := hl'.spaced
  rw [hlive'] at hsp
  obtain ⟨hcs, hle, hpos, hu, hu', hds⟩ := Block.spaced_append.mp hsp
  obtain ⟨-, hround, -⟩ := roundUp?_spec hsize
  have hmem : ∀ c, c ∈ h'.live ↔ c = ⟨ptr, rounded⟩ ∨ c ∈ h.live := by
    intro c
    rw [hlive', hlive]
    simp only [List.mem_append, List.mem_cons]
    exact or_left_comm
  refine ⟨⟨hl', ?_, htop⟩, ?_, ?_, ?_, ?_, ?_, ?_, hm, hcells⟩
  · intro c hc
    rcases (hmem c).mp hc with rfl | hc
    · exact hin
    · exact Nat.le_trans (hs.inside c hc) hm.size_le
  · exact hl'.dealloc_eq_ok hlive' hsize hs.laid hlive
  · exact Nat.le_trans (Block.le_reach hcs) hle
  · have := hl'.stop_le_top ((hmem _).mpr (Or.inl rfl))
    simp only [Block.stop] at this
    omega
  · omega
  · intro c hc
    rw [hlive] at hc
    rcases List.mem_append.mp hc with hc | hc
    · have := (Block.bounds_of_mem hcs hc).2.2
      simp only at hle
      omega
    · have := (Block.bounds_of_mem hds hc).1
      simp only [Block.stop] at this ⊢
      omega
  · exact ⟨⟨ptr, rounded⟩, rfl, hround, hmem⟩

/-- Bytes from a gap. -/
theorem Sound.handedOut_gap {h : Heap} {m : Memory} {size rounded ptr : Nat} {free : List Block}
    (hs : h.Sound m) (hround : roundUp? size = some rounded) (hpos : 0 < rounded)
    (hcarve : Block.carve? rounded h.free = some (ptr, free)) :
    HandedOut h m size ptr
      { h with free := free, live := Block.insert ⟨ptr, rounded⟩ h.live } m := by
  have hl := hs.laid
  obtain ⟨hunit, -, -⟩ := roundUp?_spec hround
  rw [hl.free_eq] at hcarve
  obtain ⟨cs, ds, hlive, hcs, hptr, hu, hds, hne, rfl⟩ :=
    Block.carve?_gaps hl.spaced unit_dvd_base hcarve
  have hinsert : Block.insert ⟨ptr, rounded⟩ h.live = cs ++ ⟨ptr, rounded⟩ :: ds := by
    rw [hlive]
    exact Block.insert_between hcs (Nat.le_of_eq hptr) hds hpos
  have hsp := Block.spaced_between hcs (Nat.le_of_eq hptr) hu hpos hunit hds
  obtain ⟨d, ds, rfl⟩ := List.exists_cons_of_ne_nil hne
  have htop : h.top = Block.reach base (cs ++ ⟨ptr, rounded⟩ :: d :: ds) := by
    rw [hl.top_eq, hlive, Block.reach_append, Block.reach_append]
    rfl
  have hin : ptr + rounded ≤ m.size := by
    have hd := hs.inside d (by rw [hlive]; simp)
    have := hds.1
    simp only [Block.stop] at hd
    omega
  refine handedOut_between hs hround hlive hinsert ⟨?_, ?_, ?_⟩ hs.top_le hin (.refl m) rfl
  · rw [hinsert]
    exact hsp
  · rw [hinsert]
  · rw [hinsert]
    exact htop

/-- Bytes at the top. -/
theorem Sound.handedOut_top {h : Heap} {m m' : Memory} {size rounded : Nat} (hs : h.Sound m)
    (hround : roundUp? size = some rounded) (hpos : 0 < rounded)
    (hlast : h.top + rounded ≤ lastPlace) (hcover : cover? m (h.top + rounded) = some m') :
    HandedOut h m size h.top
      { h with top := h.top + rounded, live := Block.insert ⟨h.top, rounded⟩ h.live } m' := by
  have hl := hs.laid
  obtain ⟨hunit, -, -⟩ := roundUp?_spec hround
  obtain ⟨hlater, hcells, hstop⟩ := cover?_spec hcover
  have hreach : Block.reach base h.live ≤ h.top := Nat.le_of_eq hl.top_eq.symm
  have hu : unit ∣ h.top := by
    rw [hl.top_eq]
    exact Block.unit_dvd_reach hl.spaced unit_dvd_base
  have hinsert : Block.insert ⟨h.top, rounded⟩ h.live = h.live ++ [⟨h.top, rounded⟩] := by
    have hend : Block.Spaced (⟨h.top, rounded⟩ : Block).stop [] := trivial
    have := Block.insert_between hl.spaced hreach hend hpos
    rwa [List.append_nil] at this
  refine handedOut_between hs hround (List.append_nil _).symm hinsert ⟨?_, ?_, ?_⟩ hlast hstop
    hlater hcells
  · rw [hinsert]
    exact Block.spaced_between hl.spaced hreach hu hpos hunit trivial
  · rw [hinsert, Block.gaps_append, ← hl.top_eq, hl.free_eq]
    simp [Block.gaps]
  · rw [hinsert, Block.reach_append]
    rfl

/-- Bytes are handed out as they should be, whether they come from a gap or the top. -/
theorem Sound.alloc? {h h' : Heap} {m m' : Memory} {size ptr : Nat} (hs : h.Sound m)
    (ha : h.alloc? m size = some (ptr, h', m')) : HandedOut h m size ptr h' m' := by
  unfold Heap.alloc? at ha
  split at ha
  · simp at ha
  next hsize0 =>
  split at ha
  · simp at ha
  next rounded hround =>
  obtain ⟨-, hle, -⟩ := roundUp?_spec hround
  have hpos : 0 < rounded := by omega
  split at ha
  · next ptr' free hcarve =>
    simp only [Option.some.injEq, Prod.mk.injEq] at ha
    obtain ⟨rfl, rfl, rfl⟩ := ha
    exact hs.handedOut_gap hround hpos hcarve
  · dsimp only at ha
    split at ha
    · simp at ha
    next hlast =>
    split at ha
    · simp at ha
    next m₁ hcover =>
    simp only [Option.some.injEq, Prod.mk.injEq] at ha
    obtain ⟨rfl, rfl, rfl⟩ := ha
    exact hs.handedOut_top hround hpos (Nat.le_of_not_lt hlast) hcover

end PathSieve.Heap

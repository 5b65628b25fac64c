/-
  A heap and its memory under any requests.

  An arena is a heap with the memory that it hands out. Requests for memory, for taking it
  back and for growing come in any order, and some of them are refused or trap. Whatever has
  come before, the live and the free blocks tile the heap (`Heap.Tiled`), the memory covers
  it (`Fits`), and which blocks are live says all the rest about the heap
  (`tiled_after`).
-/
import PathSieve.Proofs.Sandbox.HandOut

namespace PathSieve

namespace Block

/-- The number of blocks that a place lies in. -/
def coverage (bs : List Block) (i : Nat) : Nat :=
  bs.countP fun b => b.offset ≤ i ∧ i < b.stop

theorem coverage_cons (b : Block) (bs : List Block) (i : Nat) :
    coverage (b :: bs) i = coverage bs i + if b.offset ≤ i ∧ i < b.stop then 1 else 0 := by
  simp only [coverage, List.countP_cons, decide_eq_true_eq]

theorem coverage_append (bs cs : List Block) (i : Nat) :
    coverage (bs ++ cs) i = coverage bs i + coverage cs i :=
  List.countP_append

/-- Spaced blocks and the gaps between them tile the stretch that they take up. -/
theorem coverage_gaps {start : Nat} {bs : List Block} (h : Spaced start bs) (i : Nat) :
    coverage bs i + coverage (gaps start bs) i =
      if start ≤ i ∧ i < reach start bs then 1 else 0 := by
  induction bs generalizing start with
  | nil =>
    rw [if_neg (by simp only [reach_nil]; omega)]
    rfl
  | cons b bs ih =>
    obtain ⟨hle, hpos, -, -, hbs⟩ := h
    have hrest := ih hbs
    have hreach := le_reach hbs
    have hstop : b.stop = b.offset + b.size := rfl
    have hgap : coverage (gaps start (b :: bs)) i =
        coverage (gaps b.stop bs) i + if start ≤ i ∧ i < b.offset then 1 else 0 := by
      rw [gaps]
      split
      · rw [coverage_cons]
        simp only [stop]
        congr 2
        simp only [eq_iff_iff]
        omega
      · rw [if_neg (by omega), Nat.add_zero]
    rw [coverage_cons, hgap, reach_cons]
    grind

/-- Gaps begin and stop at whole units. -/
theorem whole_of_mem_gaps {start : Nat} {bs : List Block} (h : Spaced start bs)
    (hstart : Heap.unit ∣ start) {g : Block} (hg : g ∈ gaps start bs) :
    Heap.unit ∣ g.offset ∧ Heap.unit ∣ g.size := by
  induction bs generalizing start with
  | nil => simp at hg
  | cons b bs ih =>
    obtain ⟨-, -, hoff, hsize, hbs⟩ := h
    have hrest := ih hbs (Nat.dvd_add hoff hsize)
    rw [gaps] at hg
    split at hg
    · rcases List.mem_cons.mp hg with rfl | hg
      · exact ⟨hstart, Nat.dvd_sub hoff hstart⟩
      · exact hrest hg
    · exact hrest hg

theorem whole_of_mem {start : Nat} {bs : List Block} (h : Spaced start bs) {b : Block}
    (hb : b ∈ bs) : Heap.unit ∣ b.offset ∧ Heap.unit ∣ b.size := by
  induction bs generalizing start with
  | nil => simp at hb
  | cons c cs ih =>
    obtain ⟨-, -, hoff, hsize, hcs⟩ := h
    rcases List.mem_cons.mp hb with rfl | hb
    · exact ⟨hoff, hsize⟩
    · exact ih hcs hb

/-- Between two gaps stands a block. -/
theorem stop_ne_offset_of_mem_gaps {start : Nat} {bs : List Block} (h : Spaced start bs)
    {f g : Block} (hf : f ∈ gaps start bs) (hg : g ∈ gaps start bs) : f.stop ≠ g.offset := by
  induction bs generalizing start with
  | nil => simp at hf
  | cons b bs ih =>
    obtain ⟨hle, hpos, -, -, hbs⟩ := h
    have hlater : ∀ k ∈ gaps b.stop bs, b.stop ≤ k.offset ∧ 0 < k.size :=
      fun k hk => ⟨(bounds_of_mem_gaps hbs hk).1, (bounds_of_mem_gaps hbs hk).2.1⟩
    simp only [stop] at hlater ⊢
    rw [gaps] at hf hg
    split at hf
    · rw [if_pos (by assumption)] at hg
      rcases List.mem_cons.mp hf with rfl | hf <;> rcases List.mem_cons.mp hg with rfl | hg
      · simp only
        omega
      · have := hlater g hg
        simp only
        omega
      · have := hlater f hf
        simp only
        omega
      · exact ih hbs hf hg
    · rw [if_neg (by assumption)] at hg
      exact ih hbs hf hg

/-- Spaced blocks are in an order of their own. -/
theorem eq_of_mem_iff {start start' : Nat} {bs cs : List Block} (hbs : Spaced start bs)
    (hcs : Spaced start' cs) (h : ∀ b, b ∈ bs ↔ b ∈ cs) : bs = cs := by
  induction bs generalizing start start' cs with
  | nil => exact (List.eq_nil_iff_forall_not_mem.mpr fun b hb => by simpa using (h b).mpr hb).symm
  | cons b bs ih =>
    cases cs with
    | nil => exact absurd ((h b).mp (by simp)) (by simp)
    | cons c cs =>
      obtain ⟨-, hbpos, -, -, hbs⟩ := hbs
      obtain ⟨-, hcpos, -, -, hcs⟩ := hcs
      have hafter : ∀ {d : Block}, d ∈ bs → b.offset < d.offset := by
        intro d hd
        have := (bounds_of_mem hbs hd).1
        simp only [stop] at this
        omega
      have hafter' : ∀ {d : Block}, d ∈ cs → c.offset < d.offset := by
        intro d hd
        have := (bounds_of_mem hcs hd).1
        simp only [stop] at this
        omega
      have hhead : b = c := by
        rcases List.mem_cons.mp ((h b).mp (by simp)) with heq | hb
        · exact heq
        rcases List.mem_cons.mp ((h c).mpr (by simp)) with heq | hc
        · exact heq.symm
        · exact absurd (hafter hc) (Nat.lt_asymm (hafter' hb))
      subst hhead
      rw [ih hbs hcs fun d => ?_]
      constructor
      · intro hd
        rcases List.mem_cons.mp ((h d).mp (by simp [hd])) with rfl | hd'
        · exact absurd (hafter hd) (Nat.lt_irrefl _)
        · exact hd'
      · intro hd
        rcases List.mem_cons.mp ((h d).mpr (by simp [hd])) with rfl | hd'
        · exact absurd (hafter' hd) (Nat.lt_irrefl _)
        · exact hd'

end Block

namespace Heap

/-- The blocks of a heap are as they should be. -/
structure Tiled (h : Heap) : Prop where
  base_le_top : base ≤ h.top
  /-- A place between the base and the top lies in one block, live or free, and any other
      place in none. -/
  tiles : ∀ i, Block.coverage (h.live ++ h.free) i = if base ≤ i ∧ i < h.top then 1 else 0
  whole : ∀ b ∈ h.live ++ h.free, unit ∣ b.offset ∧ unit ∣ b.size ∧ 0 < b.size
  /-- No free block begins where another stops. -/
  melted : ∀ f ∈ h.free, ∀ g ∈ h.free, f.stop ≠ g.offset
  /-- No free block stops at the top. -/
  lowered : ∀ f ∈ h.free, f.stop ≠ h.top

namespace Laid

variable {h h' : Heap}

theorem tiled (hl : h.Laid) : h.Tiled := by
  have hsp := hl.spaced
  refine ⟨?_, fun i => ?_, fun b hb => ?_, fun f hf g hg => ?_, fun f hf => ?_⟩
  · rw [hl.top_eq]
    exact Block.le_reach hsp
  · rw [Block.coverage_append, hl.free_eq, hl.top_eq]
    exact Block.coverage_gaps hsp i
  · rcases List.mem_append.mp hb with hb | hb
    · obtain ⟨hoff, hsize⟩ := Block.whole_of_mem hsp hb
      exact ⟨hoff, hsize, (Block.bounds_of_mem hsp hb).2.1⟩
    · rw [hl.free_eq] at hb
      obtain ⟨hoff, hsize⟩ := Block.whole_of_mem_gaps hsp unit_dvd_base hb
      exact ⟨hoff, hsize, (Block.bounds_of_mem_gaps hsp hb).2.1⟩
  · rw [hl.free_eq] at hf hg
    exact Block.stop_ne_offset_of_mem_gaps hsp hf hg
  · rw [hl.free_eq] at hf
    rw [hl.top_eq]
    exact Nat.ne_of_lt (Block.bounds_of_mem_gaps hsp hf).2.2

/-- Which blocks are live says all there is to say about a heap. -/
theorem eq_of_mem_live_iff (hl : h.Laid) (hl' : h'.Laid) (he : ∀ b, b ∈ h.live ↔ b ∈ h'.live) :
    h = h' :=
  hl.eq_of_live_eq hl' (Block.eq_of_mem_iff hl.spaced hl'.spaced he)

end Laid

end Heap

/-- A heap with the memory that it hands out. -/
structure Arena where
  heap : Heap
  memory : Memory

namespace Arena

/-- What can be asked of a heap and its memory. -/
inductive Request where
  | alloc (size : Nat)
  | dealloc (ptr size : Nat)
  | grow (delta : Nat)

/-- A heap that has handed out nothing, with a fresh memory. -/
def fresh (initialPages maxPages : Nat) : Arena :=
  ⟨Heap.empty, Memory.fresh initialPages maxPages⟩

/-- The arena after a request. One that is refused or traps changes nothing. -/
def serve (a : Arena) : Request → Arena
  | .alloc size =>
    match a.heap.alloc? a.memory size with
    | some (_, heap, memory) => ⟨heap, memory⟩
    | none => a
  | .dealloc ptr size =>
    match a.heap.dealloc ptr size with
    | .ok heap => ⟨heap, a.memory⟩
    | .error _ => a
  | .grow delta =>
    match a.memory.grow? delta with
    | some memory => ⟨a.heap, memory⟩
    | none => a

/-- The arena after requests. -/
def after (a : Arena) (rs : List Request) : Arena :=
  rs.foldl serve a

/-- The memory has whole pages, no more than it may have, and covers the heap. -/
structure Fits (a : Arena) (maxPages : Nat) : Prop where
  whole : pageSize ∣ a.memory.size
  top_le : a.heap.top ≤ a.memory.size
  size_le : a.memory.size ≤ pageSize * maxPages

/-- The heap is sound, and the memory has grown from at least one page as far as it may. -/
structure Sound (a : Arena) (maxPages : Nat) : Prop where
  heap : a.heap.Sound a.memory
  one_le : 1 ≤ a.memory.pages
  pages_le : a.memory.pages ≤ maxPages
  maxPages_eq : a.memory.maxPages = maxPages

variable {a : Arena} {maxPages : Nat}

theorem sound_fresh {initialPages : Nat} (hone : 1 ≤ initialPages)
    (hle : initialPages ≤ maxPages) : Sound (fresh initialPages maxPages) maxPages :=
  ⟨Heap.sound_empty _, hone, hle, rfl⟩

namespace Sound

theorem fits (h : a.Sound maxPages) : a.Fits maxPages :=
  ⟨Nat.dvd_mul_right _ _, h.heap.top_le_size h.one_le, Nat.mul_le_mul_left _ h.pages_le⟩

/-- The memory has grown under the heap, or the heap has changed in it. -/
theorem later (h : a.Sound maxPages) {heap : Heap} {memory : Memory} (hheap : heap.Sound memory)
    (hm : a.memory.Later memory) : Sound ⟨heap, memory⟩ maxPages := by
  refine ⟨hheap, Nat.le_trans h.one_le hm.pages_le, ?_, hm.maxPages_eq.trans h.maxPages_eq⟩
  have hle := hm.pages_le_max
  rw [h.maxPages_eq] at hle
  exact Nat.le_trans hle (Nat.max_le.mpr ⟨h.pages_le, Nat.le_refl _⟩)

/-- A request leaves the arena sound, and the memory no smaller. -/
theorem serve (h : a.Sound maxPages) (r : Request) :
    (a.serve r).Sound maxPages ∧ a.memory.size ≤ (a.serve r).memory.size := by
  have unchanged : a.Sound maxPages ∧ a.memory.size ≤ a.memory.size := ⟨h, Nat.le_refl _⟩
  cases r with
  | alloc size =>
    simp only [Arena.serve]
    split
    · next ptr heap memory halloc =>
      have hout := h.heap.alloc? halloc
      exact ⟨h.later hout.sound hout.later, hout.later.size_le⟩
    · exact unchanged
  | dealloc ptr size =>
    simp only [Arena.serve]
    split
    · next heap hdealloc =>
      exact ⟨h.later (h.heap.dealloc hdealloc) (.refl _), Nat.le_refl _⟩
    · exact unchanged
  | grow delta =>
    simp only [Arena.serve]
    split
    · next memory hgrow =>
      obtain ⟨hlater, -⟩ := Memory.grow?_spec hgrow
      exact ⟨h.later (h.heap.later hlater) hlater, hlater.size_le⟩
    · exact unchanged

theorem after (h : a.Sound maxPages) (rs : List Request) :
    (a.after rs).Sound maxPages ∧ a.memory.size ≤ (a.after rs).memory.size := by
  induction rs generalizing a with
  | nil => exact ⟨h, Nat.le_refl _⟩
  | cons r rs ih =>
    obtain ⟨hserve, hle⟩ := h.serve r
    obtain ⟨hafter, hle'⟩ := ih hserve
    exact ⟨hafter, Nat.le_trans hle hle'⟩

end Sound

/-- After any requests the blocks tile the heap, the memory covers it and has not become
    smaller, and the heap is determined by which blocks are live, whatever requests have led
    there: with none it is the heap that has handed out nothing. -/
theorem tiled_after {initialPages maxPages : Nat} (hone : 1 ≤ initialPages)
    (hle : initialPages ≤ maxPages) (rs : List Request) :
    ((fresh initialPages maxPages).after rs).heap.Tiled ∧
      ((fresh initialPages maxPages).after rs).Fits maxPages ∧
      (∀ more, ((fresh initialPages maxPages).after rs).memory.size ≤
        ((fresh initialPages maxPages).after (rs ++ more)).memory.size) ∧
      (∀ initialPages' maxPages' rs', 1 ≤ initialPages' → initialPages' ≤ maxPages' →
        (∀ b, b ∈ ((fresh initialPages maxPages).after rs).heap.live ↔
          b ∈ ((fresh initialPages' maxPages').after rs').heap.live) →
        ((fresh initialPages maxPages).after rs).heap =
          ((fresh initialPages' maxPages').after rs').heap) ∧
      (((fresh initialPages maxPages).after rs).heap.live = [] →
        ((fresh initialPages maxPages).after rs).heap = Heap.empty) := by
  have hsound := ((sound_fresh hone hle).after rs).1
  refine ⟨hsound.heap.laid.tiled, hsound.fits, fun more => ?_, ?_, fun hnil => ?_⟩
  · unfold Arena.after
    rw [List.foldl_append]
    exact (hsound.after more).2
  · intro initialPages' maxPages' rs' hone' hle' hlive
    have hsound' := ((sound_fresh hone' hle').after rs').1
    exact hsound.heap.laid.eq_of_mem_live_iff hsound'.heap.laid hlive
  · exact hsound.heap.laid.eq_of_live_eq Heap.laid_empty hnil

/-- Three blocks are handed out, the middle one and the first one come back and melt, and what
    has come back already is refused. -/
theorem tiled_after_middle_first :
    1 ≤ 1 ∧ 1 ≤ 2 ∧
      ((fresh 1 2).after [.alloc 24, .alloc 40, .alloc 8, .dealloc 40 40, .dealloc 16 24,
        .dealloc 40 40]).heap = ⟨88, [⟨16, 64⟩], [⟨80, 8⟩]⟩ ∧
      ((fresh 1 2).after [.alloc 24, .alloc 40, .alloc 8, .dealloc 40 40, .dealloc 16 24,
        .dealloc 40 40]).heap.Tiled :=
  ⟨by decide, by decide, by decide, (tiled_after (by decide) (by decide) _).1⟩

end Arena

end PathSieve

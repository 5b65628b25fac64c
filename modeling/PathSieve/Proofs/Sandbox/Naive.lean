/-
  The allocator that only knows its live blocks.

  A naive allocator keeps the set of the live blocks and two numbers of pages, and nothing
  else: no free blocks and no top. It puts a block at the lowest place at which it fits
  beside the live ones, if it stops below the limit there. An arena answers every request
  as the naive allocator does that has the same live blocks, and so does what comes after
  it (`Arena.Sound.naive_serve`, `Arena.Sound.answers_naive`). What a host can take from a
  guest is known in the same way (`Guest.Sound.hasRoom_naive`).

  An arena is in use if requests and bytes written into its memory have led to it from a
  fresh one.
-/
import Mathlib.Data.Finset.Lattice.Fold
import PathSieve.Proofs.Sandbox.Arena
import PathSieve.Proofs.Sandbox.Lodged
import PathSieve.Proofs.Sandbox.LowestFit

namespace PathSieve

namespace Block

instance (start : Nat) (others : Finset Block) (size place : Nat) :
    Decidable (FitsAt start others size place) :=
  decidable_of_iff
    (start ≤ place ∧ Heap.unit ∣ place ∧ ∀ b ∈ others, b.stop ≤ place ∨ place + size ≤ b.offset)
    ⟨fun h => ⟨h.1, h.2.1, h.2.2⟩, fun h => ⟨h.start_le, h.whole, h.apart⟩⟩

/-- Behind all other blocks there is a place for any block. -/
theorem exists_fitsAt (others : Finset Block) (size : Nat) :
    ∃ place, FitsAt Heap.base others size place := by
  refine ⟨Heap.base + Heap.unit * others.sup stop, Nat.le_add_right _ _,
    Nat.dvd_add Heap.unit_dvd_base (Nat.dvd_mul_right _ _), fun b hb => Or.inl ?_⟩
  have hle : b.stop ≤ others.sup stop := Finset.le_sup hb
  simp only [Heap.unit]
  omega

end Block

/-- What an allocator knows that keeps account of its live blocks only. -/
structure Naive where
  live : Finset Block
  pages : Nat
  maxPages : Nat
  deriving DecidableEq

namespace Naive

/-- What there is to know of a heap and its memory. -/
def of (h : Heap) (m : Memory) : Naive :=
  ⟨h.live.toFinset, m.pages, m.maxPages⟩

/-- The lowest place at which a block of a given size fits beside the live ones. -/
def lowest (n : Naive) (size : Nat) : Nat :=
  Nat.find (Block.exists_fitsAt n.live size)

theorem isLeast_lowest (n : Naive) (size : Nat) :
    IsLeast {p | Block.FitsAt Heap.base n.live size p} (n.lowest size) :=
  ⟨Nat.find_spec (Block.exists_fitsAt n.live size), fun _ hp => Nat.find_min' _ hp⟩

/-- Hand out `size` bytes, unless they would reach beyond the limit. -/
def alloc? (n : Naive) (size : Nat) : Option (Nat × Naive) :=
  let place := n.lowest (Heap.padded size)
  let stop := place + Heap.padded size
  if 0 < size ∧ stop ≤ Heap.limit (max n.pages n.maxPages) then
    some (place,
      { n with
        live := insert ⟨place, Heap.padded size⟩ n.live
        pages := Memory.pagesFor n.pages stop })
  else none

/-- Take back a block, if it is live. -/
def dealloc? (n : Naive) (ptr size : Nat) : Option Naive :=
  if ⟨ptr, Heap.padded size⟩ ∈ n.live then
    some { n with live := n.live.erase ⟨ptr, Heap.padded size⟩ }
  else none

/-- Grow the memory, unless that passes its ceiling. -/
def grow? (n : Naive) (delta : Nat) : Option Naive :=
  if n.pages + delta ≤ n.maxPages then some { n with pages := n.pages + delta } else none

end Naive

namespace Heap

variable {h : Heap} {m : Memory}

theorem Laid.firstFit_eq_lowest (hl : h.Laid) {size : Nat} (hpos : 0 < size) :
    h.firstFit size = (Naive.of h m).lowest size := by
  have hleast := (Naive.of h m).isLeast_lowest size
  have hmem (b : Block) : b ∈ h.live ↔ b ∈ (Naive.of h m).live := by simp [Naive.of]
  simp only [← Block.fitsAt_congr hmem] at hleast
  exact (hl.isLeast_firstFit hpos).unique hleast

/-- Handing out a block, seen by the naive allocator. -/
theorem Sound.alloc?_naive (hs : h.Sound m) (size : Nat) :
    (h.alloc? m size).map (fun r => (r.1, Naive.of r.2.1 r.2.2)) =
      (Naive.of h m).alloc? size := by
  rcases Nat.eq_zero_or_pos size with rfl | hpos
  · rfl
  have hlow : h.firstFit (padded size) = (Naive.of h m).lowest (padded size) :=
    hs.laid.firstFit_eq_lowest (padded_pos hpos)
  rw [hs.alloc?_eq hpos, hlow]
  have hceiling : limit (max (Naive.of h m).pages (Naive.of h m).maxPages) = limit m.ceiling := rfl
  unfold Naive.alloc?
  simp only [hpos, true_and, hceiling]
  by_cases hfits : (Naive.of h m).lowest (padded size) + padded size ≤ limit m.ceiling
  · rw [if_pos hfits, if_pos hfits, Option.map_some]
    have hlive := List.toFinset_eq_of_perm _ _
      (Block.insert_perm ⟨(Naive.of h m).lowest (padded size), padded size⟩ h.live)
    rw [List.toFinset_cons] at hlive
    simp only [Naive.of, ofLive] at hlive ⊢
    rw [hlive]
  · rw [if_neg hfits, if_neg hfits]
    rfl

/-- No two live blocks begin at the same place. -/
theorem Laid.eq_of_offset_eq (hl : h.Laid) {b c : Block} (hb : b ∈ h.live) (hc : c ∈ h.live)
    (heq : b.offset = c.offset) : b = c := by
  have hfind := hl.find?_of_mem hb
  rw [heq, hl.find?_of_mem hc] at hfind
  exact (Option.some.inj hfind).symm

/-- The size of a live block has not passed 32 bits when it was padded. -/
theorem Sound.roundUp?_of_mem (hs : h.Sound m) {ptr size : Nat}
    (hb : ⟨ptr, padded size⟩ ∈ h.live) : roundUp? size = some (padded size) := by
  have hstop := Nat.le_trans (hs.laid.stop_le_top hb) hs.top_le
  refine roundUp?_eq_some_iff.mpr ⟨?_, rfl⟩
  simp only [Block.stop, padded, unit, lastPlace] at hstop ⊢
  omega

/-- A block can be taken back exactly if it is live, and its size, padded, is the one that is
    given. -/
theorem Sound.isOk_dealloc_iff (hs : h.Sound m) (ptr size : Nat) :
    (∃ h', h.dealloc ptr size = .ok h') ↔ ⟨ptr, padded size⟩ ∈ h.live := by
  constructor
  · intro ⟨h', hd⟩
    unfold Heap.dealloc at hd
    split at hd
    · simp at hd
    next rounded hround =>
    obtain rfl : rounded = padded size := (roundUp?_eq_some_iff.mp hround).2
    split at hd
    · simp at hd
    next b hfind =>
    have hoff : b.offset = ptr := by simpa using List.find?_some hfind
    split at hd
    · next hsize =>
      have hb := List.mem_of_find?_eq_some hfind
      rwa [show b = ⟨ptr, padded size⟩ by rw [← hoff, ← hsize]] at hb
    · simp at hd
  · intro hb
    have hround := hs.roundUp?_of_mem hb
    have hfind : Block.find? ptr h.live = some ⟨ptr, padded size⟩ := hs.laid.find?_of_mem hb
    unfold Heap.dealloc
    simp only [hround, hfind, if_true]
    exact ⟨_, rfl⟩

/-- Taking a block back, seen by the naive allocator. -/
theorem Sound.dealloc_naive (hs : h.Sound m) (ptr size : Nat) :
    (h.dealloc ptr size).toOption.map (Naive.of · m) = (Naive.of h m).dealloc? ptr size := by
  have hiff := hs.isOk_dealloc_iff ptr size
  unfold Naive.dealloc?
  by_cases hb : ⟨ptr, padded size⟩ ∈ h.live
  · obtain ⟨h', hd⟩ := hiff.mpr hb
    have hlive : h'.live.toFinset = h.live.toFinset.erase ⟨ptr, padded size⟩ := by
      ext c
      rw [live_dealloc hd]
      simp only [Block.erase, List.mem_toFinset, List.mem_filter, decide_eq_true_eq,
        Finset.mem_erase]
      constructor
      · rintro ⟨hc, hne⟩
        refine ⟨?_, hc⟩
        rintro rfl
        exact hne rfl
      · rintro ⟨hne, hc⟩
        exact ⟨hc, fun heq => hne (hs.laid.eq_of_offset_eq hc hb heq)⟩
    simp only [hd, Except.toOption, Option.map_some, Naive.of, List.mem_toFinset, hb, if_true,
      hlive]
  · cases hd : h.dealloc ptr size with
    | ok h' => exact absurd (hiff.mp ⟨h', hd⟩) hb
    | error trap => simp [Except.toOption, Naive.of, hb]

/-- Growing the memory, seen by the naive allocator. -/
theorem grow?_naive (h : Heap) (m : Memory) (delta : Nat) :
    (m.grow? delta).map (Naive.of h ·) = (Naive.of h m).grow? delta := by
  show Option.map _ (if m.pages + delta ≤ m.maxPages then _ else none) =
    if m.pages + delta ≤ m.maxPages then _ else none
  split <;> rfl

end Heap

namespace Arena

/-- What comes of a request. -/
inductive Response where
  | placed (ptr : Nat)
  | done
  | refused
  deriving DecidableEq, Repr

/-- What an arena says to a request. -/
def answer (a : Arena) : Request → Response
  | .alloc size =>
    match a.heap.alloc? a.memory size with
    | some (ptr, _, _) => .placed ptr
    | none => .refused
  | .dealloc ptr size =>
    match a.heap.dealloc ptr size with
    | .ok _ => .done
    | .error _ => .refused
  | .grow delta =>
    match a.memory.grow? delta with
    | some _ => .done
    | none => .refused

/-- What an arena says to requests, one after the other. -/
def answers (a : Arena) : List Request → List Response
  | [] => []
  | r :: rs => a.answer r :: (a.serve r).answers rs

/-- What there is to know of an arena for a naive allocator. -/
def naive (a : Arena) : Naive :=
  .of a.heap a.memory

end Arena

namespace Naive

open Arena (Request Response)

/-- What comes of a request, and what is known after it. -/
def serve (n : Naive) : Request → Response × Naive
  | .alloc size =>
    match n.alloc? size with
    | some (place, n) => (.placed place, n)
    | none => (.refused, n)
  | .dealloc ptr size =>
    match n.dealloc? ptr size with
    | some n => (.done, n)
    | none => (.refused, n)
  | .grow delta =>
    match n.grow? delta with
    | some n => (.done, n)
    | none => (.refused, n)

/-- What the naive allocator says to requests, one after the other. -/
def answers (n : Naive) : List Request → List Response
  | [] => []
  | r :: rs => (n.serve r).1 :: (n.serve r).2.answers rs

end Naive

namespace Arena

variable {a : Arena} {maxPages : Nat}

/-- A request is answered by an arena as by the naive allocator, and leads both to the same. -/
theorem Sound.naive_serve (h : a.Sound maxPages) (r : Request) :
    a.naive.serve r = (a.answer r, (a.serve r).naive) := by
  cases r with
  | alloc size =>
    have halloc := h.heap.alloc?_naive size
    simp only [Naive.serve, naive, ← halloc, answer, Arena.serve]
    cases a.heap.alloc? a.memory size <;> rfl
  | dealloc ptr size =>
    have hdealloc := h.heap.dealloc_naive ptr size
    simp only [Naive.serve, naive, ← hdealloc, answer, Arena.serve]
    cases a.heap.dealloc ptr size <;> rfl
  | grow delta =>
    simp only [Naive.serve, naive, ← Heap.grow?_naive, answer, Arena.serve]
    cases a.memory.grow? delta <;> rfl

theorem Sound.answers_naive (h : a.Sound maxPages) (rs : List Request) :
    a.answers rs = a.naive.answers rs := by
  induction rs generalizing a with
  | nil => rfl
  | cons r rs ih => rw [answers, Naive.answers, h.naive_serve r, ih (h.serve r).1]

/-! ## Arenas in use -/

/-- The arenas that come about: fresh ones, and what requests and written bytes make of them. -/
inductive Used (maxPages : Nat) : Arena → Prop where
  | fresh {initialPages : Nat} (hone : 1 ≤ initialPages) (hle : initialPages ≤ maxPages) :
    Used maxPages (fresh initialPages maxPages)
  | serve {a : Arena} (h : Used maxPages a) (r : Request) : Used maxPages (a.serve r)
  | write {a : Arena} (h : Used maxPages a) {start : Nat} {bytes : List UInt8}
    (hin : start + bytes.length ≤ a.memory.size) :
    Used maxPages ⟨a.heap, a.memory.store start bytes⟩

theorem Used.sound (h : a.Used maxPages) : a.Sound maxPages := by
  induction h with
  | fresh hone hle => exact sound_fresh hone hle
  | serve _ r ih => exact (ih.serve r).1
  | write _ _ ih => exact ih.later (ih.heap.later (.store ..)) (.store ..)

theorem Used.after (h : a.Used maxPages) (rs : List Request) : (a.after rs).Used maxPages := by
  induction rs generalizing a with
  | nil => exact h
  | cons r rs ih => exact ih (h.serve r)

/-- A request does not write. -/
theorem cells_serve (h : a.Sound maxPages) (r : Request) :
    (a.serve r).memory.cells = a.memory.cells := by
  cases r with
  | alloc size =>
    simp only [Arena.serve]
    split
    · next ha => exact (h.heap.alloc? ha).cells_eq
    · rfl
  | dealloc ptr size =>
    simp only [Arena.serve]
    split <;> rfl
  | grow delta =>
    simp only [Arena.serve]
    split
    · next hg => exact (Memory.grow?_spec hg).2.1
    · rfl

/-- Beyond its size a memory is zero. -/
theorem Used.byteAt_eq_zero (h : a.Used maxPages) {i : Nat} (hi : a.memory.size ≤ i) :
    a.memory.byteAt i = 0 := by
  induction h with
  | fresh _ _ => rfl
  | @serve a h r ih =>
    rw [Memory.byteAt, cells_serve h.sound r]
    exact ih (Nat.le_trans (h.sound.serve r).2 hi)
  | write _ hin ih =>
    rw [Memory.size_store] at hi
    rw [Memory.byteAt_store, if_neg (by omega)]
    exact ih hi

/-- What it means that an arena hands out `size` bytes at a place. -/
structure HandsOut (a : Arena) (size place : Nat) (next : Arena) : Prop where
  alloc?_eq : a.heap.alloc? a.memory size = some (place, next.heap, next.memory)
  /-- One more block is live, and it was not before. -/
  live_perm : next.heap.live.Perm (⟨place, Heap.padded size⟩ :: a.heap.live)
  not_mem : ⟨place, Heap.padded size⟩ ∉ a.heap.live
  /-- The memory has no more pages than it takes to cover the block. -/
  pages_least : IsLeast {n | a.memory.pages ≤ n ∧ place + Heap.padded size ≤ pageSize * n}
    next.memory.pages
  maxPages_eq : next.memory.maxPages = a.memory.maxPages
  kept : ∀ i, next.memory.byteAt i = a.memory.byteAt i
  zero : ∀ i, a.memory.size ≤ i → next.memory.byteAt i = 0

/-- An arena in use hands out bytes at the lowest place at which they fit beside the live
    blocks, if they stop below the limit there, and else refuses and is left as it is. All its
    answers from there on are those of the allocator that only knows the live blocks. -/
theorem lowest_fit (hu : a.Used maxPages) :
    (∀ size, 0 < size →
      ∃ place, IsLeast {p | Block.FitsAt Heap.base a.heap.live (Heap.padded size) p} place ∧
        if place + Heap.padded size ≤ Heap.limit maxPages then
          a.HandsOut size place (a.serve (.alloc size))
        else a.heap.alloc? a.memory size = none ∧ a.serve (.alloc size) = a) ∧
      ∀ rs, a.answers rs = a.naive.answers rs := by
  have hs := hu.sound
  refine ⟨fun size hpos => ?_, hs.answers_naive⟩
  have hpad := Heap.padded_pos hpos
  have hleast := hs.heap.laid.isLeast_firstFit hpad
  refine ⟨a.heap.firstFit (Heap.padded size), hleast, ?_⟩
  have hceiling : a.memory.ceiling = maxPages := by
    rw [Memory.ceiling, hs.maxPages_eq]
    exact Nat.max_eq_right hs.pages_le
  have halloc := hs.heap.alloc?_eq hpos
  rw [hceiling] at halloc
  by_cases hfits : a.heap.firstFit (Heap.padded size) + Heap.padded size ≤ Heap.limit maxPages
  · rw [if_pos hfits] at halloc ⊢
    simp only [Arena.serve, halloc]
    refine ⟨halloc, Block.insert_perm _ _, fun hmem => ?_, Memory.isLeast_pagesFor _ _, rfl,
      fun _ => rfl, fun _ => hu.byteAt_eq_zero⟩
    have hapart := hleast.1.apart _ hmem
    simp only [Block.stop] at hapart
    omega
  · rw [if_neg hfits] at halloc ⊢
    simp only [Arena.serve, halloc, and_self]

/-- A block has come back at the bottom: what has room there is put there, what has not is put
    behind the other block, and what does not stop below the limit there is refused. -/
theorem lowest_fit_above_hole :
    ∃ a, a = (fresh 1 2).after [.alloc 24, .alloc 40, .dealloc 16 24] ∧ a.Used 2 ∧
      a.answers [.alloc 131000, .alloc 32, .alloc 10, .alloc 130960, .alloc 8, .alloc 8] =
        [.refused, .placed 80, .placed 16, .placed 112, .placed 32, .refused] ∧
      (∃ place, IsLeast {p | Block.FitsAt Heap.base a.heap.live (Heap.padded 10) p} place ∧
        if place + Heap.padded 10 ≤ Heap.limit 2 then
          a.HandsOut 10 place (a.serve (.alloc 10))
        else a.heap.alloc? a.memory 10 = none ∧ a.serve (.alloc 10) = a) ∧
      ∀ rs, a.answers rs = a.naive.answers rs := by
  have hfresh : Used 2 (fresh 1 2) := .fresh (Nat.le_refl 1) (by decide)
  have hused := hfresh.after [.alloc 24, .alloc 40, .dealloc 16 24]
  exact ⟨_, rfl, hused, by decide, (lowest_fit hused).1 10 (by decide), (lowest_fit hused).2⟩

end Arena

/-! ## Room in a guest -/

namespace Naive

/-- Take memory for `size` bytes, as a host does. -/
def take? (n : Naive) (size : Nat) : Option Naive :=
  if size = 0 then some n
  else if Instance.maxAllocation < size then none
  else (n.alloc? size).map Prod.snd

/-- Is there room for all of the sizes, one beside the other? -/
def hasRoom (n : Naive) : List Nat → Bool
  | [] => true
  | size :: sizes =>
    match n.take? size with
    | none => false
    | some n => n.hasRoom sizes

/-- What there is room for with more beside it there is room for alone. -/
theorem hasRoom_of_append {n : Naive} {sizes more : List Nat}
    (h : n.hasRoom (sizes ++ more) = true) : n.hasRoom sizes = true := by
  induction sizes generalizing n with
  | nil => rfl
  | cons size sizes ih =>
    rw [List.cons_append, hasRoom] at h
    rw [hasRoom]
    cases htake : n.take? size with
    | none => simp [htake] at h
    | some n' =>
      simp only [htake] at h
      exact ih h

end Naive

namespace Guest

/-- What there is to know of a guest for a naive allocator. -/
def naive (g : Guest) : Naive :=
  .of g.heap g.memory

variable {g : Guest}

theorem Sound.take?_naive (hs : g.Sound) (size : Nat) :
    (g.take? size).map (fun r => r.2.naive) = g.naive.take? size := by
  unfold Guest.take? Naive.take?
  split
  · rfl
  split
  · rfl
  rw [naive, ← hs.heap.alloc?_naive, Option.map_map, Option.map_map]
  rfl

/-- Whether there is room depends on the live blocks alone, and on the pages. -/
theorem Sound.hasRoom_naive (hs : g.Sound) (sizes : List Nat) :
    g.hasRoom sizes = g.naive.hasRoom sizes := by
  induction sizes generalizing g with
  | nil => rfl
  | cons size sizes ih =>
    rw [Naive.hasRoom, ← hs.take?_naive]
    cases htake : g.take? size with
    | none => exact hasRoom_cons_of_none htake sizes
    | some r => rw [hasRoom_cons_of_some htake, ih (hs.take? htake).sound]; rfl

end Guest

end PathSieve

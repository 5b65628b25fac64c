/-
  The allocator in 32-bit numbers.

  A guest reckons with 32-bit numbers. It looks for the first free block with room and puts
  what is left of it back; and what comes back is joined with the first free block from its end
  on, if that begins there, and with the last one before its beginning, if that stops there. Here
  every sum and every difference on the way is checked: one that is not a 32-bit number has no
  value, and then the whole operation has none. On a sound heap every operation has a value, and
  it is the one of the allocator that reckons with all numbers (`Sound.alloc32?_eq`,
  `Sound.dealloc32?_eq`).
-/
import PathSieve.Proofs.Sandbox.Arena

namespace PathSieve

namespace Block

theorem Spaced.mono {start start' : Nat} {bs : List Block} (h : Spaced start bs)
    (hle : start' ≤ start) : Spaced start' bs := by
  cases bs with
  | nil => trivial
  | cons b bs =>
    obtain ⟨hb, hrest⟩ := h
    exact ⟨Nat.le_trans hle hb, hrest⟩

/-- Some of the spaced blocks are spaced. -/
theorem Spaced.sublist {start : Nat} {bs cs : List Block} (h : Spaced start bs)
    (hsub : cs.Sublist bs) : Spaced start cs := by
  induction hsub generalizing start with
  | slnil => trivial
  | cons b _ ih =>
    obtain ⟨hle, -, -, -, hbs⟩ := h
    exact (ih hbs).mono (by simp only [stop]; omega)
  | cons_cons b _ ih =>
    obtain ⟨hle, hpos, hoff, hsize, hbs⟩ := h
    exact ⟨hle, hpos, hoff, hsize, ih hbs⟩

/-- The gaps between spaced blocks are spaced. -/
theorem spaced_gaps {start : Nat} {bs : List Block} (h : Spaced start bs)
    (hstart : Heap.unit ∣ start) : Spaced start (gaps start bs) := by
  induction bs generalizing start with
  | nil => trivial
  | cons b bs ih =>
    obtain ⟨hle, hpos, hoff, hsize, hbs⟩ := h
    have hrest := ih hbs (Nat.dvd_add hoff hsize)
    rw [gaps]
    split
    · next hlt =>
      refine ⟨Nat.le_refl _, by simp only; omega, hstart, Nat.dvd_sub hoff hstart, ?_⟩
      exact hrest.mono (by simp only [stop]; omega)
    · exact hrest.mono (by simp only [stop]; omega)

/-! ## Blocks in the order of their offsets -/

/-- The first block from a place on. -/
def nextFrom (place : Nat) (bs : List Block) : Option Block :=
  bs.find? fun b => place ≤ b.offset

/-- The last block that begins before a place. -/
def lastBefore (place : Nat) (bs : List Block) : Option Block :=
  (bs.filter fun b => b.offset < place).getLast?

/-- If a block begins at a place, it is the first one from there on. -/
theorem find?_eq_nextFrom {start place : Nat} {bs : List Block} (h : Spaced start bs) :
    find? place bs = (nextFrom place bs).filter fun b => b.offset = place := by
  induction bs generalizing start with
  | nil => rfl
  | cons b bs ih =>
    obtain ⟨-, hpos, -, -, hbs⟩ := h
    have hrest := ih hbs
    unfold find? nextFrom at hrest ⊢
    rw [List.find?_cons, List.find?_cons]
    by_cases heq : b.offset = place
    · simp [heq, Option.filter_some]
    · by_cases hle : place ≤ b.offset
      · -- all later blocks begin behind the place
        have hnone : bs.find? (fun c => c.offset = place) = none := by
          refine List.find?_eq_none.mpr fun c hc => ?_
          have := (bounds_of_mem hbs hc).1
          simp only [stop] at this
          simp only [decide_eq_true_eq]
          omega
        simp [heq, hle, hnone, Option.filter_some]
      · simpa [heq, hle] using hrest

theorem lastBefore_cons (place : Nat) (b : Block) (bs : List Block) :
    lastBefore place (b :: bs) =
      (lastBefore place bs).or (if b.offset < place then some b else none) := by
  unfold lastBefore
  rw [List.filter_cons]
  by_cases hlt : b.offset < place
  · simp only [hlt, decide_true, if_true, List.getLast?_cons]
    cases (bs.filter fun b => b.offset < place).getLast? <;> rfl
  · simp [hlt]

/-- If a block stops at a place, it is the last one that begins before it. -/
theorem find?_stop_eq_lastBefore {start place : Nat} {bs : List Block} (h : Spaced start bs) :
    bs.find? (fun b => b.stop = place) =
      (lastBefore place bs).filter fun b => b.stop = place := by
  induction bs generalizing start with
  | nil => rfl
  | cons b bs ih =>
    obtain ⟨-, hpos, -, -, hbs⟩ := h
    rw [List.find?_cons, lastBefore_cons, ih hbs]
    cases hlast : lastBefore place bs with
    | some c =>
      -- `b` stops where `c` begins at the latest
      have hc := List.mem_filter.mp (List.mem_of_getLast? hlast)
      have hle := (bounds_of_mem hbs hc.1).1
      have hlt : c.offset < place := by simpa using hc.2
      have hne : ¬ b.stop = place := by omega
      simp [hne]
    | none =>
      by_cases hstop : b.stop = place
      · have hlt : b.offset < place := by
          simp only [stop] at hstop
          omega
        simp [hstop, hlt, Option.filter_some]
      · by_cases hlt : b.offset < place <;> simp [hstop, hlt, Option.filter_some]

end Block

namespace Heap

open Block

/-! ## Checked operations -/

/-- The sum of two 32-bit numbers, if it is one. -/
def add32? (a b : Nat) : Option Nat :=
  if a + b ≤ lastPlace then some (a + b) else none

/-- The difference of two 32-bit numbers, if it is one. -/
def sub32? (a b : Nat) : Option Nat :=
  if b ≤ a then some (a - b) else none

/-- The free blocks without one of them, and with what is left when `size` bytes are cut off it. -/
def cut32? (b : Block) (size : Nat) (free : List Block) : Option (List Block) := do
  let free := erase b.offset free
  if size < b.size then
    let offset ← add32? b.offset size
    let rest ← sub32? b.size size
    pure (Block.insert ⟨offset, rest⟩ free)
  else pure free

/-- Hand out `size` bytes. There is no value at all if the arithmetic fails. Where the block ends
    that is put at the top is reckoned in 64 bits. -/
def alloc32? (h : Heap) (m : Memory) (size : Nat) : Option (Option (Nat × Heap × Memory)) :=
  if size = 0 then some none
  else
    match roundUp? size with
    | none => some none
    | some size =>
      match h.free.find? fun b => size ≤ b.size with
      | some b => do
        let free ← cut32? b size h.free
        pure (some
          (b.offset, { h with free := free, live := Block.insert ⟨b.offset, size⟩ h.live }, m))
      | none =>
        let stop := h.top + size
        if lastPlace < stop then some none
        else
          match cover? m stop with
          | none => some none
          | some m =>
            let live := Block.insert ⟨h.top, size⟩ h.live
            some (some (h.top, { h with top := stop % (lastPlace + 1), live := live }, m))

/-- The block with the free block that begins where it ends, and the other free blocks. -/
def mergeNext32? (b : Block) (free : List Block) : Option (Block × List Block) := do
  let stop ← add32? b.offset b.size
  match nextFrom stop free with
  | some next =>
    if next.offset = stop then
      let size ← add32? b.size next.size
      pure (⟨b.offset, size⟩, erase next.offset free)
    else pure (b, free)
  | none => pure (b, free)

/-- The block with the free block that ends where it begins, and the other free blocks. -/
def mergePrevious32? (b : Block) (free : List Block) : Option (Block × List Block) :=
  match lastBefore b.offset free with
  | some previous => do
    let stop ← add32? previous.offset previous.size
    if stop = b.offset then
      let size ← add32? b.size previous.size
      pure (⟨previous.offset, size⟩, erase previous.offset free)
    else pure (b, free)
  | none => pure (b, free)

/-- Give a block back. -/
def release32? (h : Heap) (b : Block) : Option Heap := do
  let (b, free) ← mergeNext32? b h.free
  let (b, free) ← mergePrevious32? b free
  let stop ← add32? b.offset b.size
  if stop = h.top then pure { h with top := b.offset, free := free }
  else pure { h with free := Block.insert b free }

/-- Take back the block at a pointer. There is no value at all if the arithmetic fails. -/
def dealloc32? (h : Heap) (ptr size : Nat) : Option (Except Trap Heap) :=
  match roundUp? size with
  | none => some (.error .freeOverflow)
  | some rounded =>
    match find? ptr h.live with
    | none => some (.error (.freeUnallocated ptr))
    | some b =>
      if b.size = rounded then
        (release32? { h with live := erase ptr h.live } ⟨ptr, rounded⟩).map .ok
      else some (.error (.freeMismatch ptr b.size rounded))

/-! ## No operation fails -/

theorem add32?_eq {a b : Nat} (h : a + b ≤ lastPlace) : add32? a b = some (a + b) :=
  if_pos h

theorem sub32?_eq {a b : Nat} (h : b ≤ a) : sub32? a b = some (a - b) :=
  if_pos h

/-- A block that stands behind others is cut without them. -/
theorem cut32?_cons {b c : Block} {size : Nat} {free : List Block} (hlt : c.offset < b.offset) :
    cut32? b size (c :: free) = (cut32? b size free).map (c :: ·) := by
  have hne : c.offset ≠ b.offset := Nat.ne_of_lt hlt
  have herase : erase b.offset (c :: free) = c :: erase b.offset free := by
    simp [erase, hne]
  have hinsert : ∀ rest, Block.insert ⟨b.offset + size, rest⟩ (c :: erase b.offset free) =
      c :: Block.insert ⟨b.offset + size, rest⟩ (erase b.offset free) := fun rest => by
    rw [Block.insert, if_neg (by simp only; omega)]
  unfold cut32? add32? sub32?
  rw [herase]
  by_cases hrest : size < b.size
  · by_cases hlast : b.offset + size ≤ lastPlace
    · simp [hrest, hlast, Nat.le_of_lt hrest, hinsert]
    · simp [hrest, hlast]
  · simp [hrest]

theorem cut32?_head {start size : Nat} {b : Block} {free : List Block}
    (h : Spaced start (b :: free)) (hfit : b.stop ≤ lastPlace) (hle : size ≤ b.size) :
    cut32? b size (b :: free) =
      some (if size < b.size then ⟨b.offset + size, b.size - size⟩ :: free else free) := by
  obtain ⟨-, hpos, -, -, hbs⟩ := h
  have hafter : ∀ c ∈ free, b.stop ≤ c.offset := fun c hc => (bounds_of_mem hbs hc).1
  simp only [stop] at hafter hfit
  have herase : erase b.offset (b :: free) = free := by
    obtain ⟨offset, bsize⟩ := b
    rw [erase_cons_self]
    refine erase_of_forall_ne fun c hc => ?_
    have := hafter c hc
    simp only at this hpos ⊢
    omega
  unfold cut32?
  rw [herase]
  by_cases hrest : size < b.size
  · have hinsert : Block.insert ⟨b.offset + size, b.size - size⟩ free =
        ⟨b.offset + size, b.size - size⟩ :: free := by
      refine insert_of_lt fun c hc => ?_
      have := hafter c hc
      simp only
      omega
    rw [if_pos hrest, if_pos hrest, add32?_eq (by omega), sub32?_eq hle]
    simp [hinsert]
  · simp [hrest]

/-- Cutting bytes off the first free block with room. -/
theorem carve?_eq_cut32? {start : Nat} (size : Nat) {free : List Block} (h : Spaced start free)
    (hfit : ∀ f ∈ free, f.stop ≤ lastPlace) :
    match free.find? fun b => size ≤ b.size with
    | none => carve? size free = none
    | some b =>
      ∃ rest, cut32? b size free = some rest ∧ carve? size free = some (b.offset, rest) := by
  induction free generalizing start with
  | nil => rfl
  | cons c cs ih =>
    obtain ⟨-, hpos, -, -, hcs⟩ := id h
    rw [List.find?_cons, carve?]
    by_cases hle : size ≤ c.size
    · simp only [hle, decide_true, if_true]
      exact ⟨_, cut32?_head h (hfit c (by simp)) hle, rfl⟩
    · have hrest := ih hcs fun f hf => hfit f (by simp [hf])
      simp only [hle, decide_false, if_false]
      cases hfind : cs.find? fun b => size ≤ b.size with
      | none =>
        rw [hfind] at hrest
        simp only at hrest ⊢
        rw [hrest]
        rfl
      | some b =>
        rw [hfind] at hrest
        obtain ⟨rest, hcut, hcarve⟩ := hrest
        have hlt : c.offset < b.offset := by
          have := (bounds_of_mem hcs (List.mem_of_find?_eq_some hfind)).1
          simp only [stop] at this
          omega
        refine ⟨c :: rest, ?_, ?_⟩
        · rw [cut32?_cons hlt, hcut]
          rfl
        · rw [hcarve]
          rfl

theorem mergeNext32?_eq {start : Nat} {b : Block} {free : List Block} (h : Spaced start free)
    (hfit : ∀ f ∈ free, f.stop ≤ lastPlace) (hb : b.stop ≤ lastPlace) :
    mergeNext32? b free = some (mergeNext b free) ∧ (mergeNext b free).1.stop ≤ lastPlace ∧
      (mergeNext b free).2.Sublist free := by
  have hstop : add32? b.offset b.size = some b.stop := add32?_eq hb
  unfold mergeNext32? mergeNext
  simp only [hstop, find?_eq_nextFrom h, Option.bind_eq_bind, Option.bind_some]
  cases hnext : nextFrom b.stop free with
  | none => exact ⟨rfl, hb, List.Sublist.refl _⟩
  | some next =>
    have hmem := hfit next (List.mem_of_find?_eq_some hnext)
    by_cases heq : next.offset = b.stop
    · have hlast : b.offset + (b.size + next.size) ≤ lastPlace := by
        simp only [stop] at hmem heq
        omega
      have hsize : add32? b.size next.size = some (b.size + next.size) := add32?_eq (by omega)
      simp only [heq, hsize, Option.filter_some, decide_true, if_true, Option.bind_some]
      exact ⟨rfl, hlast, List.filter_sublist⟩
    · simp only [heq, Option.filter_some, decide_false, if_false]
      exact ⟨rfl, hb, List.Sublist.refl _⟩

theorem mergePrevious32?_eq {start : Nat} {b : Block} {free : List Block} (h : Spaced start free)
    (hfit : ∀ f ∈ free, f.stop ≤ lastPlace) (hb : b.stop ≤ lastPlace) :
    mergePrevious32? b free = some (mergePrevious b free) ∧
      (mergePrevious b free).1.stop ≤ lastPlace := by
  unfold mergePrevious32? mergePrevious
  rw [find?_stop_eq_lastBefore h]
  cases hlast : lastBefore b.offset free with
  | none => exact ⟨rfl, hb⟩
  | some previous =>
    have hmem := hfit previous (List.mem_filter.mp (List.mem_of_getLast? hlast)).1
    have hstop : add32? previous.offset previous.size = some previous.stop := add32?_eq hmem
    simp only [hstop, Option.bind_eq_bind, Option.bind_some]
    by_cases heq : previous.stop = b.offset
    · have hjoin : previous.offset + (previous.size + b.size) ≤ lastPlace := by
        simp only [stop] at heq hb
        omega
      have hsize : add32? b.size previous.size = some (previous.size + b.size) := by
        rw [Nat.add_comm]
        exact add32?_eq (by omega)
      simp only [heq, hsize, Option.filter_some, decide_true, if_true, Option.bind_some]
      exact ⟨rfl, hjoin⟩
    · simp only [heq, Option.filter_some, decide_false, if_false]
      exact ⟨rfl, hb⟩

theorem release32?_eq {start : Nat} {h : Heap} {b : Block} (hfree : Spaced start h.free)
    (hfit : ∀ f ∈ h.free, f.stop ≤ lastPlace) (hb : b.stop ≤ lastPlace) :
    h.release32? b = some (h.release b) := by
  obtain ⟨hnext, hstop, hsub⟩ := mergeNext32?_eq hfree hfit hb
  obtain ⟨hprevious, hlast⟩ := mergePrevious32?_eq (hfree.sublist hsub)
    (fun f hf => hfit f (hsub.subset hf)) hstop
  have hend : add32? _ _ = some _ := add32?_eq hlast
  unfold release32? release
  simp only [hnext, hprevious, hend, Option.bind_eq_bind, Option.bind_some]
  exact (apply_ite some ..).symm

namespace Sound

variable {h : Heap} {m : Memory}

theorem spaced_free (hs : h.Sound m) : Spaced base h.free := by
  rw [hs.laid.free_eq]
  exact spaced_gaps hs.laid.spaced unit_dvd_base

theorem free_stop_le (hs : h.Sound m) : ∀ f ∈ h.free, f.stop ≤ lastPlace := by
  intro f hf
  rw [hs.laid.free_eq] at hf
  have hlt := (bounds_of_mem_gaps hs.laid.spaced hf).2.2
  rw [← hs.laid.top_eq] at hlt
  exact Nat.le_trans (Nat.le_of_lt hlt) hs.top_le

/-- Handing out never fails in 32-bit numbers, and comes to the same. -/
theorem alloc32?_eq (hs : h.Sound m) (size : Nat) : h.alloc32? m size = some (h.alloc? m size) := by
  unfold alloc32? Heap.alloc?
  split
  · rfl
  cases roundUp? size with
  | none => rfl
  | some rounded =>
    have hcarve := carve?_eq_cut32? rounded hs.spaced_free hs.free_stop_le
    simp only
    cases hfind : h.free.find? fun b => rounded ≤ b.size with
    | some b =>
      rw [hfind] at hcarve
      obtain ⟨rest, hcut, hcarve⟩ := hcarve
      simp only [hcut, hcarve]
      rfl
    | none =>
      rw [hfind] at hcarve
      simp only at hcarve
      simp only [hcarve]
      by_cases hlast : lastPlace < h.top + rounded
      · simp [hlast]
      · have hmod : (h.top + rounded) % (lastPlace + 1) = h.top + rounded :=
          Nat.mod_eq_of_lt (by omega)
        simp only [hlast, if_false, hmod]
        cases cover? m (h.top + rounded) <;> rfl

/-- Taking back never fails in 32-bit numbers, and comes to the same. -/
theorem dealloc32?_eq (hs : h.Sound m) (ptr size : Nat) :
    h.dealloc32? ptr size = some (h.dealloc ptr size) := by
  unfold dealloc32? Heap.dealloc
  cases roundUp? size with
  | none => rfl
  | some rounded =>
    simp only
    cases hfind : find? ptr h.live with
    | none => rfl
    | some b =>
      simp only
      by_cases hsize : b.size = rounded
      · have hoff : b.offset = ptr := by simpa using List.find?_some hfind
        have hb : (⟨ptr, rounded⟩ : Block) = b := by rw [← hoff, ← hsize]
        have hstop := Nat.le_trans (hs.laid.stop_le_top (List.mem_of_find?_eq_some hfind)) hs.top_le
        have hrelease : release32? { h with live := erase ptr h.live } b = _ :=
          release32?_eq hs.spaced_free hs.free_stop_le hstop
        rw [if_pos hsize, if_pos hsize, hb, hrelease]
        rfl
      · rw [if_neg hsize, if_neg hsize]

end Sound

end Heap

end PathSieve

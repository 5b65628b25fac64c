/-
  Taking a block back.

  A block that is given back melts into the gaps on either side of it, and into the space
  above when it was the last one. What comes out is the layout that belongs to the live
  blocks that are left (`Laid.release`), so handing out and taking back end where they
  began, in whatever order blocks are given back.
-/
import PathSieve.Proofs.Sandbox.Layout

namespace PathSieve.Block

/-- The gap between a place and a block behind it, if they do not touch. -/
def gapBefore (start : Nat) (b : Block) : List Block :=
  if start < b.offset then [⟨start, b.offset - start⟩] else []

theorem gaps_cons (start : Nat) (b : Block) (bs : List Block) :
    gaps start (b :: bs) = gapBefore start b ++ gaps b.stop bs := by
  simp only [gaps, gapBefore]
  split <;> rfl

theorem gaps_between (start : Nat) (cs : List Block) (b : Block) (ds : List Block) :
    gaps start (cs ++ b :: ds) =
      gaps start cs ++ (gapBefore (reach start cs) b ++ gaps b.stop ds) := by
  rw [gaps_append, gaps_cons]

theorem erase_of_forall_ne {offset : Nat} {bs : List Block} (h : ∀ b ∈ bs, b.offset ≠ offset) :
    erase offset bs = bs :=
  List.filter_eq_self.mpr (by simpa using h)

theorem erase_append (offset : Nat) (bs cs : List Block) :
    erase offset (bs ++ cs) = erase offset bs ++ erase offset cs :=
  List.filter_append ..

theorem erase_cons_self {offset size : Nat} {bs : List Block} :
    erase offset (⟨offset, size⟩ :: bs) = erase offset bs := by
  rw [erase, List.filter_cons, if_neg (by simp)]
  rfl

theorem erase_append_cons {b : Block} {bs cs : List Block}
    (hbs : ∀ c ∈ bs, c.offset ≠ b.offset) (hcs : ∀ c ∈ cs, c.offset ≠ b.offset) :
    erase b.offset (bs ++ b :: cs) = bs ++ cs := by
  rw [erase_append, erase_cons_self, erase_of_forall_ne hbs, erase_of_forall_ne hcs]

end PathSieve.Block

namespace PathSieve.Heap

open Block

/-- Where a block given back ends, once the gap behind it has been added: at the next live
    block, if there is one. -/
def stopWith (b : Block) : List Block → Nat
  | [] => b.stop
  | d :: _ => d.offset

/-- The gaps behind the next live block. -/
def gapsAfter : List Block → List Block
  | [] => []
  | d :: ds => gaps d.stop ds

theorem stop_le_stopWith {b : Block} {ds : List Block} (hds : Spaced b.stop ds) :
    b.stop ≤ stopWith b ds := by
  cases ds with
  | nil => exact Nat.le_refl _
  | cons d ds => exact hds.1

theorem start_lt_of_mem_gapsAfter {start : Nat} {ds : List Block} (hds : Spaced start ds)
    {p : Block} (hp : p ∈ gapsAfter ds) : start < p.offset := by
  cases ds with
  | nil => simp [gapsAfter] at hp
  | cons d ds =>
    obtain ⟨hle, hpos, -, -, hds'⟩ := hds
    have := (bounds_of_mem_gaps hds' hp).1
    simp only [stop] at this
    omega

/-- The gaps before a block are none that begins where it ends. -/
theorem ne_stop_of_mem_gaps {b : Block} {cs : List Block} (hcs : Spaced base cs)
    (hle : reach base cs ≤ b.offset) {p : Block}
    (hp : p ∈ gaps base cs ++ gapBefore (reach base cs) b) : p.offset ≠ b.stop := by
  rcases List.mem_append.mp hp with hp | hp
  · have := bounds_of_mem_gaps hcs hp
    simp only [stop] at this ⊢
    omega
  · simp only [gapBefore] at hp
    split at hp
    · obtain rfl := List.mem_singleton.mp hp
      simp only [stop]
      omega
    · simp at hp

/-- A block with no free block behind it stays as it is. -/
theorem mergeNext_of_forall_ne {b : Block} {free : List Block}
    (h : ∀ p ∈ free, p.offset ≠ b.stop) : mergeNext b free = (b, free) := by
  have hfind : find? b.stop free = none := List.find?_eq_none.mpr (by simpa using h)
  rw [mergeNext, hfind]

theorem mergeNext_append_cons {b next : Block} {front back : List Block}
    (hnext : next.offset = b.stop) (hfront : ∀ p ∈ front, p.offset ≠ b.stop)
    (hback : ∀ p ∈ back, p.offset ≠ b.stop) :
    mergeNext b (front ++ next :: back) =
      (⟨b.offset, b.size + next.size⟩, front ++ back) := by
  have hnone : List.find? (fun p : Block => p.offset = b.stop) front = none :=
    List.find?_eq_none.mpr (by simpa using hfront)
  have hfind : find? b.stop (front ++ next :: back) = some next := by
    rw [find?, List.find?_append, hnone]
    simp [hnext]
  rw [← hnext] at hfront hback
  rw [mergeNext, hfind]
  dsimp only
  rw [erase_append_cons hfront hback]

theorem mergeNext_gaps {b : Block} {front ds : List Block} (hds : Spaced b.stop ds)
    (hfront : ∀ p ∈ front, p.offset ≠ b.stop) :
    mergeNext b (front ++ gaps b.stop ds) =
      (⟨b.offset, stopWith b ds - b.offset⟩, front ++ gapsAfter ds) := by
  cases ds with
  | nil =>
    have hb : b = ⟨b.offset, b.stop - b.offset⟩ := by
      simp only [stop, Nat.add_sub_cancel_left]
    rw [gaps_nil, List.append_nil, mergeNext_of_forall_ne hfront, gapsAfter, List.append_nil,
      stopWith, ← hb]
  | cons d ds =>
    have hle : b.stop ≤ d.offset := hds.1
    have hback : ∀ p ∈ gaps d.stop ds, p.offset ≠ b.stop := fun p hp =>
      Nat.ne_of_gt (start_lt_of_mem_gapsAfter hds hp)
    rw [gaps_cons, gapBefore, stopWith, gapsAfter]
    by_cases hgap : b.stop < d.offset
    · rw [if_pos hgap, List.singleton_append, mergeNext_append_cons rfl hfront hback]
      congr 2
      simp only [stop] at hgap ⊢
      omega
    · have hb : b = ⟨b.offset, d.offset - b.offset⟩ := by
        have : b.size = d.offset - b.offset := by
          simp only [stop] at hgap hle
          omega
        rw [← this]
      have hne : ∀ p ∈ front ++ gaps d.stop ds, p.offset ≠ b.stop := fun p hp =>
        (List.mem_append.mp hp).elim (hfront p) (hback p)
      rw [if_neg hgap, List.nil_append, mergeNext_of_forall_ne hne, ← hb]

/-- A block with no free block before it stays as it is. -/
theorem mergePrevious_of_forall_ne {b : Block} {free : List Block}
    (h : ∀ p ∈ free, p.stop ≠ b.offset) : mergePrevious b free = (b, free) := by
  have hfind : List.find? (fun p : Block => p.stop = b.offset) free = none :=
    List.find?_eq_none.mpr (by simpa using h)
  rw [mergePrevious, hfind]

theorem mergePrevious_append_cons {b previous : Block} {front back : List Block}
    (hprevious : previous.stop = b.offset) (hstop : ∀ p ∈ front, p.stop ≠ b.offset)
    (hfront : ∀ p ∈ front, p.offset ≠ previous.offset)
    (hback : ∀ p ∈ back, p.offset ≠ previous.offset) :
    mergePrevious b (front ++ previous :: back) =
      (⟨previous.offset, previous.size + b.size⟩, front ++ back) := by
  have hnone : List.find? (fun p : Block => p.stop = b.offset) front = none :=
    List.find?_eq_none.mpr (by simpa using hstop)
  have hfind : List.find? (fun p : Block => p.stop = b.offset) (front ++ previous :: back) =
      some previous := by
    rw [List.find?_append, hnone]
    simp [hprevious]
  rw [mergePrevious, hfind]
  dsimp only
  rw [erase_append_cons hfront hback]

theorem mergePrevious_gaps {b : Block} {cs back : List Block} (hcs : Spaced base cs)
    (hb : reach base cs ≤ b.offset) (hback : ∀ p ∈ back, b.offset < p.offset) :
    mergePrevious b (gaps base cs ++ (gapBefore (reach base cs) b ++ back)) =
      (⟨reach base cs, b.stop - reach base cs⟩, gaps base cs ++ back) := by
  have hfront : ∀ p ∈ gaps base cs, p.stop ≠ b.offset ∧ p.offset ≠ reach base cs := by
    intro p hp
    have := bounds_of_mem_gaps hcs hp
    simp only [stop] at this ⊢
    omega
  rw [gapBefore]
  by_cases hgap : reach base cs < b.offset
  · have hstop : stop ⟨reach base cs, b.offset - reach base cs⟩ = b.offset := by
      simp only [stop]
      omega
    have hback' : ∀ p ∈ back, p.offset ≠ reach base cs := fun p hp =>
      Nat.ne_of_gt (Nat.lt_trans hgap (hback p hp))
    rw [if_pos hgap, List.singleton_append, mergePrevious_append_cons hstop
      (fun p hp => (hfront p hp).1) (fun p hp => (hfront p hp).2) hback']
    congr 2
    simp only [stop] at hgap ⊢
    omega
  · have hoff : reach base cs = b.offset := by omega
    have hbeq : b = ⟨reach base cs, b.stop - reach base cs⟩ := by
      rw [hoff, stop, Nat.add_sub_cancel_left]
    have hne : ∀ p ∈ gaps base cs ++ back, p.stop ≠ b.offset := by
      intro p hp
      rcases List.mem_append.mp hp with hp | hp
      · exact (hfront p hp).1
      · have := hback p hp
        simp only [stop]
        omega
    rw [if_neg hgap, List.nil_append, mergePrevious_of_forall_ne hne, ← hbeq]

/-- A block that melts into the gaps on either side of it becomes all that is between the live
    blocks before and behind it. -/
theorem merge_gaps {b : Block} {cs ds : List Block} (hcs : Spaced base cs)
    (hle : reach base cs ≤ b.offset) (hds : Spaced b.stop ds) :
    mergePrevious (mergeNext b (gaps base (cs ++ b :: ds))).1
        (mergeNext b (gaps base (cs ++ b :: ds))).2 =
      (⟨reach base cs, stopWith b ds - reach base cs⟩, gaps base cs ++ gapsAfter ds) := by
  have hstop := stop_le_stopWith hds
  have hback : ∀ p ∈ gapsAfter ds, b.offset < p.offset := fun p hp =>
    Nat.lt_of_le_of_lt (Nat.le_add_right ..) (start_lt_of_mem_gapsAfter hds hp)
  rw [gaps_between, ← List.append_assoc,
    mergeNext_gaps hds fun p hp => ne_stop_of_mem_gaps hcs hle hp, List.append_assoc]
  -- the gap before a block does not depend on where the block ends
  have hprev := mergePrevious_gaps (b := ⟨b.offset, stopWith b ds - b.offset⟩) hcs hle hback
  have hsum : b.offset + (stopWith b ds - b.offset) = stopWith b ds := by
    simp only [stop] at hstop
    omega
  rw [stop, hsum] at hprev
  exact hprev

/-- The gap that a block leaves before the next live block takes its place among the others. -/
theorem insert_gaps {cs ds : List Block} {d : Block} (hcs : Spaced base cs)
    (hlt : reach base cs < d.offset) (hds : Spaced d.stop ds) :
    Block.insert ⟨reach base cs, d.offset - reach base cs⟩ (gaps base cs ++ gaps d.stop ds) =
      gaps base (cs ++ d :: ds) := by
  have hbefore : ∀ p ∈ gaps base cs, p.offset ≤ reach base cs := by
    intro p hp
    have := bounds_of_mem_gaps hcs hp
    simp only [stop] at this
    omega
  have hbehind : ∀ p ∈ gaps d.stop ds, reach base cs < p.offset := by
    intro p hp
    have := (bounds_of_mem_gaps hds hp).1
    simp only [stop] at this
    omega
  rw [insert_append_of_lt hbefore, insert_of_lt hbehind, gaps_between, gapBefore, if_pos hlt]
  rfl

/-- Giving a block back leaves the layout of the other live blocks. -/
theorem Laid.release {h : Heap} {cs ds : List Block} {b : Block} (hl : h.Laid)
    (hlive : h.live = cs ++ b :: ds) :
    Laid ({ h with live := cs ++ ds }.release b) ∧
      ({ h with live := cs ++ ds }.release b).live = cs ++ ds := by
  have hsp := hl.spaced
  have htop := hl.top_eq
  rw [hlive] at hsp htop
  rw [reach_append, reach_cons] at htop
  obtain ⟨hcs, hle, hpos, -, -, hds⟩ := spaced_append.mp hsp
  have hstop := stop_le_stopWith hds
  have hlt : reach base cs < stopWith b ds := by
    simp only [stop] at hstop
    omega
  have hend : (⟨reach base cs, stopWith b ds - reach base cs⟩ : Block).stop = stopWith b ds :=
    Nat.add_sub_cancel' (Nat.le_of_lt hlt)
  simp only [Heap.release, hl.free_eq, hlive, merge_gaps hcs hle hds, hend]
  cases ds with
  | nil =>
    -- the last block: the top comes down to where the one before it stops
    have heq : stopWith b [] = h.top := htop.symm
    rw [if_pos heq]
    exact ⟨⟨by simpa using hcs, by simp [gapsAfter], by simp⟩, rfl⟩
  | cons d ds =>
    obtain ⟨-, hdpos, hdu, hdu', hds'⟩ := hds
    have hne : stopWith b (d :: ds) ≠ h.top := by
      have := le_reach hds'
      rw [htop, stopWith, reach_cons]
      simp only [stop] at this ⊢
      omega
    rw [if_neg hne]
    refine ⟨⟨?_, insert_gaps hcs hlt hds', ?_⟩, rfl⟩
    · exact spaced_append.mpr ⟨hcs, Nat.le_of_lt hlt, hdpos, hdu, hdu', hds'⟩
    · rw [htop, reach_append]
      rfl

/-- Taking back a live block leaves the heap of the other live blocks. -/
theorem Laid.dealloc_eq_ok {h h' : Heap} {cs ds : List Block} {b : Block} {size : Nat}
    (hl : h.Laid) (hlive : h.live = cs ++ b :: ds) (hsize : roundUp? size = some b.size)
    (hl' : h'.Laid) (hlive' : h'.live = cs ++ ds) : h.dealloc b.offset size = .ok h' := by
  have hsp := hl.spaced
  rw [hlive] at hsp
  obtain ⟨hcs, hle, hpos, -, -, hds⟩ := spaced_append.mp hsp
  have hfind : Block.find? b.offset h.live = some b := hl.find?_of_mem (by simp [hlive])
  have herase : Block.erase b.offset h.live = cs ++ ds := by
    rw [hlive]
    exact erase_between hcs hle hds hpos
  obtain ⟨hrel, hrel'⟩ := hl.release hlive
  have heq := hrel.eq_of_live_eq hl' (hrel'.trans hlive'.symm)
  simp only [dealloc, hsize, hfind, if_pos, herase, heq]

/-- Whatever is taken back, a heap that is laid out well stays so, and only loses. -/
theorem Laid.dealloc {h h' : Heap} {ptr size : Nat} (hl : h.Laid)
    (hd : h.dealloc ptr size = .ok h') : h'.Laid ∧ ∀ b ∈ h'.live, b ∈ h.live := by
  unfold Heap.dealloc at hd
  split at hd
  · simp at hd
  · split at hd
    · simp at hd
    · next b hfind =>
      split at hd
      · obtain ⟨cs, ds, hlive, hoff, hcs, hle, hpos, -, -, hds⟩ :=
          exists_between hl.spaced hfind
        have herase : Block.erase ptr h.live = cs ++ ds := by
          rw [hlive, ← hoff]
          exact erase_between hcs hle hds hpos
        obtain ⟨hrel, hrel'⟩ := hl.release hlive
        rw [herase, Except.ok.injEq] at hd
        subst hd
        refine ⟨hrel, fun c hc => ?_⟩
        rw [hrel'] at hc
        rw [hlive]
        simp only [List.mem_append, List.mem_cons] at hc ⊢
        exact hc.imp_right Or.inr
      · simp at hd

end PathSieve.Heap

/-
  Taking back is exact.

  Memory comes back if a live block begins at the place that is given and its size is the one
  that is given, with its padding. Then that block is live no more, and all others are. In
  every other case there is a trap: for a place inside a block, for one that has come back
  already, for a wrong size, for none and for one too large to be rounded up
  (`Sound.comesBack`).
-/
import PathSieve.Proofs.Sandbox.Naive

namespace PathSieve

namespace Block

/-- No block stands twice among spaced ones. -/
theorem nodup_of_spaced {start : Nat} {bs : List Block} (h : Spaced start bs) : bs.Nodup := by
  induction bs generalizing start with
  | nil => exact .nil
  | cons b bs ih =>
    obtain ⟨-, hpos, -, -, hbs⟩ := h
    refine List.nodup_cons.mpr ⟨fun hb => ?_, ih hbs⟩
    have := (bounds_of_mem hbs hb).1
    simp only [stop] at this
    omega

/-- A place lies in one live block at most. -/
theorem coverage_live_le_one {h : Heap} (hl : h.Laid) (i : Nat) : coverage h.live i ≤ 1 := by
  have htiles := hl.tiled.tiles i
  rw [coverage_append] at htiles
  split at htiles <;> omega

/-- The order of blocks has no part in where they lie. -/
theorem coverage_perm {bs cs : List Block} (h : bs.Perm cs) (i : Nat) :
    coverage bs i = coverage cs i :=
  h.countP_eq _

end Block

namespace Heap

/-- How it ends to give back `size` bytes at a place. -/
inductive ComesBack (h : Heap) (ptr size : Nat) : Except Trap Heap → Prop where
  /-- A live block begins there and has that size, with its padding. It is live no more; all
      others are, and they lie apart from it. -/
  | block {b : Block} {h' : Heap} (mem : b ∈ h.live) (offset_eq : b.offset = ptr)
    (size_eq : roundUp? size = some b.size) (live_perm : h.live.Perm (b :: h'.live))
    (not_mem : b ∉ h'.live) (apart : ∀ c ∈ h'.live, c.stop ≤ b.offset ∨ b.stop ≤ c.offset) :
    ComesBack h ptr size (.ok h')
  /-- No live block begins there and has that size. -/
  | trap {t : Trap} (none : ∀ b ∈ h.live, b.offset = ptr → roundUp? size ≠ some b.size) :
    ComesBack h ptr size (.error t)

theorem Sound.comesBack {h : Heap} {m : Memory} (hs : h.Sound m) (ptr size : Nat) :
    h.ComesBack ptr size (h.dealloc ptr size) := by
  have hl := hs.laid
  have hiff := hs.isOk_dealloc_iff ptr size
  cases hd : h.dealloc ptr size with
  | error trap =>
    refine .trap fun b hb hoff hsize => ?_
    have hpad : b.size = padded size := (roundUp?_eq_some_iff.mp hsize).2
    have heq : b = ⟨ptr, padded size⟩ := by rw [← hoff, ← hpad]
    obtain ⟨h', hok⟩ := hiff.mpr (heq ▸ hb)
    rw [hd] at hok
    cases hok
  | ok h' =>
    have hb := hiff.mp ⟨h', hd⟩
    obtain ⟨cs, ds, hlive, -, hcs, hle, hpos, -, -, hds⟩ :=
      Block.exists_between hl.spaced (hl.find?_of_mem hb)
    have hlive' : h'.live = cs ++ ds := by
      rw [live_dealloc hd, hlive]
      exact Block.erase_between hcs hle hds hpos
    have hperm : h.live.Perm (⟨ptr, padded size⟩ :: h'.live) := by
      rw [hlive, hlive']
      exact List.perm_middle
    have hnot : ⟨ptr, padded size⟩ ∉ h'.live :=
      (List.nodup_cons.mp (hperm.nodup_iff.mp (Block.nodup_of_spaced hl.spaced))).1
    refine .block hb rfl (hs.roundUp?_of_mem hb) hperm hnot fun c hc => ?_
    have hc' : c ∈ h.live := hperm.mem_iff.mpr (List.mem_cons_of_mem _ hc)
    rcases Block.apart_of_mem hl.spaced hc' hb with rfl | hapart
    · exact absurd hc hnot
    · exact hapart

end Heap

end PathSieve

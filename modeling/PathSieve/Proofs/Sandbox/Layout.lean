/-
  How the blocks of a heap lie.

  The live blocks determine all the rest of a heap: the free blocks are the gaps before
  and between them (`Block.gaps`), and the top is where the last of them stops
  (`Block.reach`). A heap is laid out well if its live blocks keep their distance, in
  order and in whole units, and its free blocks and its top are those that belong to them
  (`Heap.Laid`). So two heaps with the same live blocks are the same heap
  (`Laid.eq_of_live_eq`), whatever has been handed out and taken back before.
-/
import PathSieve.Sandbox.Heap

namespace PathSieve.Block

/-- The stretches between `start` and the last of the blocks that no block covers. -/
def gaps (start : Nat) : List Block → List Block
  | [] => []
  | b :: bs =>
    if start < b.offset then ⟨start, b.offset - start⟩ :: gaps b.stop bs else gaps b.stop bs

/-- Where the last block stops. -/
def reach (start : Nat) : List Block → Nat
  | [] => start
  | b :: bs => reach b.stop bs

/-- Blocks in order from `start` on, none of them empty and none over another, that begin
    and stop at whole units. -/
def Spaced (start : Nat) : List Block → Prop
  | [] => True
  | b :: bs =>
    start ≤ b.offset ∧ 0 < b.size ∧ Heap.unit ∣ b.offset ∧ Heap.unit ∣ b.size ∧
      Spaced b.stop bs

@[simp] theorem gaps_nil (start : Nat) : gaps start [] = [] := rfl

@[simp] theorem reach_nil (start : Nat) : reach start [] = start := rfl

@[simp] theorem reach_cons (start : Nat) (b : Block) (bs : List Block) :
    reach start (b :: bs) = reach b.stop bs := rfl

theorem gaps_append (start : Nat) (bs cs : List Block) :
    gaps start (bs ++ cs) = gaps start bs ++ gaps (reach start bs) cs := by
  induction bs generalizing start with
  | nil => rfl
  | cons b bs ih =>
    simp only [List.cons_append, gaps, reach_cons, ih]
    split <;> rfl

theorem reach_append (start : Nat) (bs cs : List Block) :
    reach start (bs ++ cs) = reach (reach start bs) cs := by
  induction bs generalizing start with
  | nil => rfl
  | cons b bs ih => exact ih b.stop

theorem spaced_append {start : Nat} {bs cs : List Block} :
    Spaced start (bs ++ cs) ↔ Spaced start bs ∧ Spaced (reach start bs) cs := by
  induction bs generalizing start with
  | nil => simp [Spaced]
  | cons b bs ih => simp [Spaced, ih, and_assoc]

theorem le_reach {start : Nat} {bs : List Block} (h : Spaced start bs) :
    start ≤ reach start bs := by
  induction bs generalizing start with
  | nil => exact Nat.le_refl _
  | cons b bs ih =>
    obtain ⟨hle, -, -, -, hbs⟩ := h
    have := ih hbs
    simp only [stop, reach_cons] at this ⊢
    omega

/-- Spaced blocks lie between the start and where the last one stops. -/
theorem bounds_of_mem {start : Nat} {bs : List Block} (h : Spaced start bs) {b : Block}
    (hb : b ∈ bs) : start ≤ b.offset ∧ 0 < b.size ∧ b.stop ≤ reach start bs := by
  induction bs generalizing start with
  | nil => simp at hb
  | cons c cs ih =>
    obtain ⟨hle, hpos, -, -, hcs⟩ := h
    rcases List.mem_cons.mp hb with rfl | hb
    · exact ⟨hle, hpos, le_reach hcs⟩
    · obtain ⟨hlo, hsz, hhi⟩ := ih hcs hb
      refine ⟨?_, hsz, hhi⟩
      simp only [stop] at hlo
      omega

/-- Spaced blocks lie apart from each other. -/
theorem apart_of_mem {start : Nat} {bs : List Block} (h : Spaced start bs) {b c : Block}
    (hb : b ∈ bs) (hc : c ∈ bs) : b = c ∨ b.stop ≤ c.offset ∨ c.stop ≤ b.offset := by
  induction bs generalizing start with
  | nil => simp at hb
  | cons d ds ih =>
    obtain ⟨-, -, -, -, hds⟩ := h
    rcases List.mem_cons.mp hb with rfl | hb' <;> rcases List.mem_cons.mp hc with rfl | hc'
    · exact Or.inl rfl
    · exact Or.inr (Or.inl (bounds_of_mem hds hc').1)
    · exact Or.inr (Or.inr (bounds_of_mem hds hb').1)
    · exact ih hds hb' hc'

/-- A gap is not empty, and a block stands behind it. -/
theorem bounds_of_mem_gaps {start : Nat} {bs : List Block} (h : Spaced start bs) {g : Block}
    (hg : g ∈ gaps start bs) : start ≤ g.offset ∧ 0 < g.size ∧ g.stop < reach start bs := by
  induction bs generalizing start with
  | nil => simp at hg
  | cons b bs ih =>
    obtain ⟨hle, hpos, -, -, hbs⟩ := h
    have hr := le_reach hbs
    have tail : g ∈ gaps b.stop bs →
        start ≤ g.offset ∧ 0 < g.size ∧ g.stop < reach b.stop bs := by
      intro hg
      obtain ⟨hlo, hsz, hhi⟩ := ih hbs hg
      refine ⟨?_, hsz, hhi⟩
      simp only [stop] at hlo
      omega
    simp only [gaps] at hg
    split at hg
    · rcases List.mem_cons.mp hg with rfl | hg
      · simp only [stop, reach_cons] at hr ⊢
        omega
      · exact tail hg
    · exact tail hg

/-! ## Putting blocks in order -/

theorem insert_append_of_lt {b : Block} {bs cs : List Block}
    (h : ∀ c ∈ bs, c.offset ≤ b.offset) : insert b (bs ++ cs) = bs ++ insert b cs := by
  induction bs with
  | nil => rfl
  | cons c bs ih =>
    have hc : ¬ b.offset < c.offset := Nat.not_lt.mpr (h c (by simp))
    rw [List.cons_append, insert, if_neg hc, ih fun d hd => h d (by simp [hd])]
    rfl

theorem insert_of_lt {b : Block} {bs : List Block} (h : ∀ c ∈ bs, b.offset < c.offset) :
    insert b bs = b :: bs := by
  cases bs with
  | nil => rfl
  | cons c bs => rw [insert, if_pos (h c (by simp))]

/-- A block that fits between others is put between them. -/
theorem insert_between {b : Block} {bs cs : List Block} {start : Nat}
    (hbs : Spaced start bs) (hb : reach start bs ≤ b.offset) (hcs : Spaced b.stop cs)
    (hpos : 0 < b.size) : insert b (bs ++ cs) = bs ++ b :: cs := by
  rw [insert_append_of_lt, insert_of_lt]
  · intro c hc
    have := (bounds_of_mem hcs hc).1
    simp only [stop] at this
    omega
  · intro c hc
    have := (bounds_of_mem hbs hc).2.2
    simp only [stop] at this
    omega

/-- The block at an offset, and what is left without it, when it stands between others. -/
theorem find?_between {b : Block} {bs cs : List Block} {start : Nat}
    (hbs : Spaced start bs) (hb : reach start bs ≤ b.offset) :
    find? b.offset (bs ++ b :: cs) = some b := by
  have hne : ∀ c ∈ bs, ¬ c.offset = b.offset := by
    intro c hc
    have := bounds_of_mem hbs hc
    simp only [stop] at this
    omega
  rw [find?, List.find?_append, List.find?_eq_none.mpr (by simpa using hne)]
  simp

theorem erase_between {b : Block} {bs cs : List Block} {start : Nat}
    (hbs : Spaced start bs) (hb : reach start bs ≤ b.offset) (hcs : Spaced b.stop cs)
    (hpos : 0 < b.size) : erase b.offset (bs ++ b :: cs) = bs ++ cs := by
  have hbs' : ∀ c ∈ bs, c.offset ≠ b.offset := by
    intro c hc
    have := bounds_of_mem hbs hc
    simp only [stop] at this
    omega
  have hcs' : ∀ c ∈ cs, c.offset ≠ b.offset := by
    intro c hc
    have := bounds_of_mem hcs hc
    simp only [stop] at this
    omega
  rw [erase, List.filter_append, List.filter_cons, if_neg (by simp),
    List.filter_eq_self.mpr (by simpa using hbs'), List.filter_eq_self.mpr (by simpa using hcs')]

/-- A live block is found by its offset, and stands between others. -/
theorem exists_between {start offset : Nat} {bs : List Block} {b : Block}
    (h : Spaced start bs) (hb : find? offset bs = some b) :
    ∃ cs ds, bs = cs ++ b :: ds ∧ b.offset = offset ∧ Spaced start cs ∧
      reach start cs ≤ b.offset ∧ 0 < b.size ∧ Heap.unit ∣ b.offset ∧ Heap.unit ∣ b.size ∧
      Spaced b.stop ds := by
  have hmem := List.mem_of_find?_eq_some hb
  have hoff : b.offset = offset := by simpa using List.find?_some hb
  obtain ⟨cs, ds, rfl⟩ := List.append_of_mem hmem
  obtain ⟨hcs, hle, hpos, hu, hu', hds⟩ := spaced_append.mp h
  exact ⟨cs, ds, rfl, hoff, hcs, hle, hpos, hu, hu', hds⟩

end PathSieve.Block

namespace PathSieve.Heap

/-- The heap is the one that belongs to its live blocks. -/
structure Laid (h : Heap) : Prop where
  spaced : Block.Spaced base h.live
  free_eq : h.free = Block.gaps base h.live
  top_eq : h.top = Block.reach base h.live

theorem laid_empty : Laid empty := ⟨trivial, rfl, rfl⟩

namespace Laid

/-- The live blocks say all there is to say about a heap. -/
theorem eq_of_live_eq {h h' : Heap} (hl : h.Laid) (hl' : h'.Laid) (he : h.live = h'.live) :
    h = h' := by
  have hfree : h.free = h'.free := by rw [hl.free_eq, hl'.free_eq, he]
  have htop : h.top = h'.top := by rw [hl.top_eq, hl'.top_eq, he]
  cases h
  cases h'
  simp only at hfree htop he
  rw [hfree, htop, he]

/-- The top is the base, or a live block stops there. -/
theorem top_cases {h : Heap} (hl : h.Laid) :
    h.top = base ∨ ∃ b ∈ h.live, h.top = b.stop := by
  rcases List.eq_nil_or_concat h.live with hnil | ⟨bs, b, hlast⟩
  · left
    rw [hl.top_eq, hnil]
    rfl
  · right
    rw [List.concat_eq_append] at hlast
    refine ⟨b, by simp [hlast], ?_⟩
    rw [hl.top_eq, hlast, Block.reach_append]
    rfl

theorem stop_le_top {h : Heap} (hl : h.Laid) {b : Block} (hb : b ∈ h.live) : b.stop ≤ h.top := by
  rw [hl.top_eq]
  exact (Block.bounds_of_mem hl.spaced hb).2.2

/-- Each live block is found by its offset. -/
theorem find?_of_mem {h : Heap} (hl : h.Laid) {b : Block} (hb : b ∈ h.live) :
    Block.find? b.offset h.live = some b := by
  obtain ⟨cs, ds, hlive⟩ := List.append_of_mem hb
  have hsp := hl.spaced
  rw [hlive] at hsp ⊢
  obtain ⟨hcs, hle, -⟩ := Block.spaced_append.mp hsp
  exact Block.find?_between hcs hle

end Laid

end PathSieve.Heap

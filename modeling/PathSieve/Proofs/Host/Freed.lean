/-
  No block comes back twice.

  A guest takes a block back when it is called with the place of a live block and with its size,
  and no other call and no written byte ends the life of a block. So the blocks that are handed
  out during any visits, with those that were live before, are the ones that come back, with
  those that are live after (`Sound.history`). A place comes back no more often than it is handed
  out, but once more if it was taken at the beginning (`frees_exactly`). Calls that trap and
  writes to any place may come in between.
-/
import PathSieve.Proofs.Host.Restored
import PathSieve.Proofs.Host.Visits
import PathSieve.Proofs.Sandbox.Exact

namespace PathSieve

namespace Guest

/-- How it ends to call a guest with a pointer and a size to be taken back. -/
inductive Frees (g : Guest) (ptr size : Int32) : Reply Unit × Guest → Prop where
  /-- There is no pointer, or no size. -/
  | nothing (h : ptr = 0 ∨ size ≤ 0) : Frees g ptr size (.returned (), g)
  | block {h' : Heap} (ptr_ne : ptr ≠ 0) (size_pos : 0 < size)
    (comes : g.heap.ComesBack (word ptr) (word size) (.ok h')) :
    Frees g ptr size (.returned (), g.withHeap h')
  | trap {t : Trap} (ptr_ne : ptr ≠ 0) (size_pos : 0 < size)
    (comes : g.heap.ComesBack (word ptr) (word size) (.error t)) :
    Frees g ptr size (.trapped t, g)

theorem Sound.frees {g : Guest} (hs : g.Sound) (ptr size : Int32) :
    g.Frees ptr size ((EntryCall.dealloc ptr size).run g) := by
  rw [run_dealloc]
  unfold Guest.dealloc
  by_cases hvoid : ptr = 0 ∨ size ≤ 0
  · rw [if_pos (by simpa using hvoid)]
    exact .nothing hvoid
  · rw [if_neg (by simpa using hvoid)]
    obtain ⟨hptr, hsize⟩ := not_or.mp hvoid
    have hcomes := hs.heap.comesBack (word ptr) (word size)
    rw [Int32.not_le] at hsize
    cases hd : g.heap.dealloc (word ptr) (word size) with
    | ok h' => exact .block hptr hsize (hd ▸ hcomes)
    | error t => exact .trap hptr hsize (hd ▸ hcomes)

/-! ## Blocks that are handed out and come back -/

/-- The blocks that a visit makes live. -/
def handedOut (g : Guest) (v : Visit) : List Block :=
  (g.visit v).heap.live.filter (· ∉ g.heap.live)

/-- The block that comes back with a visit: the one that is named by a call that returns. -/
def takenBack (g : Guest) : Visit → List Block
  | .call (.dealloc ptr size) =>
    if ptr = 0 ∨ size ≤ 0 then []
    else
      match ((EntryCall.dealloc ptr size).run g).1 with
      | .returned () => [⟨word ptr, Heap.padded (word size)⟩]
      | _ => []
  | _ => []

theorem takenBack_eq_nil {g : Guest} {v : Visit} (h : ∀ ptr size, v ≠ .call (.dealloc ptr size)) :
    g.takenBack v = [] := by
  unfold takenBack
  split
  · exact absurd rfl (h _ _)
  · rfl

namespace Sound

variable {g : Guest}

theorem live_subset_alloc (hs : g.Sound) (size : Int32) :
    g.heap.live ⊆ (g.alloc size).2.heap.live := by
  rcases g.alloc_cases size with heq | ⟨ptr, heap, memory, ha, heq⟩ <;> rw [heq]
  · exact List.Subset.refl _
  · obtain ⟨b, -, -, hmem⟩ := (hs.heap.alloc? ha).live
    exact fun c hc => (hmem c).mpr (.inr hc)

/-- Blocks stay live when nobody gives them back. -/
theorem live_subset_visit (hs : g.Sound) {v : Visit}
    (hv : ∀ ptr size, v ≠ .call (.dealloc ptr size)) : g.heap.live ⊆ (g.visit v).heap.live := by
  have same {g' : Guest} (heq : g'.heap = g.heap) : g.heap.live ⊆ g'.heap.live :=
    heq ▸ List.Subset.refl _
  cases v with
  | store start bytes =>
    simp only [Guest.visit]
    split
    · exact same rfl
    · exact same rfl
  | call c =>
    cases c with
    | alloc size => exact hs.live_subset_alloc size
    | dealloc ptr size => exact absurd rfl (hv ptr size)
    | createMatcher ptr len =>
      refine same ?_
      show (Backend.createMatcher g ptr len).2.heap = g.heap
      cases hc : g.createMatcher ptr len with
      | error trap => simp only [Backend.createMatcher, hc, settle]
      | ok r =>
        simp only [Backend.createMatcher, hc, settle]
        rcases createMatcher_cases hc with heq | ⟨rs, heq⟩ <;> rw [heq]
    | destroyMatcher handle =>
      refine same ?_
      show (g.destroyMatcher handle).heap = g.heap
      unfold Guest.destroyMatcher
      split <;> rfl
    | isMatch handle ptr len isDir => exact same rfl
    | batchFilter handle ptr len info => exact hs.live_subset_batchFilter handle ptr len info

theorem nodup_live (hs : g.Sound) : g.heap.live.Nodup :=
  Block.nodup_of_spaced hs.heap.laid.spaced

/-- When no block has come back, what is live is what was live and what has been handed out. -/
theorem handedOut_perm_of_subset (hs : g.Sound) {v : Visit}
    (hsub : g.heap.live ⊆ (g.visit v).heap.live) :
    (g.handedOut v ++ g.heap.live).Perm (g.visit v).heap.live := by
  have hnodup := (hs.visit v).nodup_live
  have hdisjoint : (g.handedOut v).Disjoint g.heap.live := by
    intro b hb hlive
    simpa [hlive] using (List.mem_filter.mp hb).2
  have hnew : (g.handedOut v ++ g.heap.live).Nodup :=
    List.nodup_append'.mpr ⟨hnodup.filter _, hs.nodup_live, hdisjoint⟩
  refine (List.perm_ext_iff_of_nodup hnew hnodup).mpr fun b => ?_
  simp only [handedOut, List.mem_append, List.mem_filter, decide_eq_true_eq]
  constructor
  · rintro (⟨hb, -⟩ | hb)
    · exact hb
    · exact hsub hb
  · intro hb
    by_cases hlive : b ∈ g.heap.live
    · exact .inr hlive
    · exact .inl ⟨hb, hlive⟩

/-- What a visit hands out and what comes back with it is the difference between the blocks
    that are live before and after it. -/
theorem handedOut_perm (hs : g.Sound) (v : Visit) :
    (g.handedOut v ++ g.heap.live).Perm (g.takenBack v ++ (g.visit v).heap.live) := by
  by_cases hv : ∃ ptr size, v = .call (.dealloc ptr size)
  · obtain ⟨ptr, size, rfl⟩ := hv
    have hfrees := hs.frees ptr size
    have hsame (h : (EntryCall.run g (.dealloc ptr size)).2 = g) :
        (g.handedOut (.call (.dealloc ptr size)) ++ g.heap.live).Perm
          (g.visit (.call (.dealloc ptr size))).heap.live :=
      hs.handedOut_perm_of_subset (by rw [Guest.visit, h]; exact List.Subset.refl _)
    generalize hrun : EntryCall.run g (.dealloc ptr size) = r at hfrees hsame
    cases hfrees with
    | nothing hvoid =>
      rw [takenBack, if_pos hvoid]
      exact hsame rfl
    | trap hptr hsize hcomes =>
      rw [takenBack, hrun, ite_self]
      exact hsame rfl
    | block hptr hsize hcomes =>
      rename_i h'
      have hvoid : ¬ (ptr = 0 ∨ size ≤ 0) := not_or.mpr ⟨hptr, Int32.not_le.mpr hsize⟩
      cases hcomes with
      | @block b _ hb hoff hround hperm hnot hapart =>
        have heq : b = ⟨word ptr, Heap.padded (word size)⟩ := by
          have hpad : b.size = Heap.padded (word size) := (Heap.roundUp?_eq_some_iff.mp hround).2
          rw [← hoff, ← hpad]
        have hnone : g.handedOut (.call (.dealloc ptr size)) = [] := by
          simp only [handedOut, Guest.visit, hrun, List.filter_eq_nil_iff, decide_eq_true_eq,
            Decidable.not_not]
          exact fun c hc => hperm.mem_iff.mpr (List.mem_cons_of_mem b hc)
        rw [hnone, takenBack, if_neg hvoid, Guest.visit, hrun]
        exact heq ▸ hperm
  · have hv' : ∀ ptr size, v ≠ .call (.dealloc ptr size) :=
      fun ptr size heq => hv ⟨ptr, size, heq⟩
    rw [takenBack_eq_nil hv']
    exact hs.handedOut_perm_of_subset (hs.live_subset_visit hv')

end Sound

/-- Visits lead from one guest to another; these blocks are handed out meanwhile, and these
    come back. -/
inductive History (g : Guest) : List Block → List Block → Guest → Prop where
  | nil : History g [] [] g
  | snoc {outs backs : List Block} {now : Guest} (h : History g outs backs now) (v : Visit) :
    History g (outs ++ now.handedOut v) (backs ++ now.takenBack v) (now.visit v)

namespace History

variable {g now : Guest} {outs backs : List Block}

theorem sound (h : g.History outs backs now) (hs : g.Sound) : now.Sound := by
  induction h with
  | nil => exact hs
  | snoc _ v ih => exact ih.visit v

/-- Each block that was live or has been handed out is live or has come back, and each once. -/
theorem perm (h : g.History outs backs now) (hs : g.Sound) :
    (outs ++ g.heap.live).Perm (backs ++ now.heap.live) := by
  induction h with
  | nil => exact .refl _
  | @snoc outs backs now h v ih =>
    have hstep := (h.sound hs).handedOut_perm v
    rw [List.append_assoc, List.append_assoc]
    calc (outs ++ (now.handedOut v ++ g.heap.live)).Perm
          (now.handedOut v ++ (outs ++ g.heap.live)) := List.perm_append_comm_assoc ..
      _ |>.Perm (now.handedOut v ++ (backs ++ now.heap.live)) := ih.append_left _
      _ |>.Perm (backs ++ (now.handedOut v ++ now.heap.live)) := List.perm_append_comm_assoc ..
      _ |>.Perm (backs ++ (now.takenBack v ++ (now.visit v).heap.live)) := hstep.append_left _

/-- A place comes back as often as it is handed out, but for its being taken at the beginning
    and at the end. -/
theorem coverage_eq (h : g.History outs backs now) (hs : g.Sound) (place : Nat) :
    Block.coverage outs place + Block.coverage g.heap.live place =
      Block.coverage backs place + Block.coverage now.heap.live place := by
  rw [← Block.coverage_append, ← Block.coverage_append]
  exact Block.coverage_perm (h.perm hs) place

end History

end Guest

namespace Instance

open PathSieve.Action Guest

/-- How it ends to give the memory of a range back to the guest of an instance. -/
inductive Frees (inst : Instance Guest) (s : Span) :
    Except Failure Unit × Instance Guest → Prop where
  /-- There is nothing in the range, or the instance is tainted. -/
  | nothing (h : s.isNull = true ∨ inst.tainted = true) : Frees inst s (.ok (), inst)
  | returned {g : Guest} (not_null : s.isNull = false) (untainted : inst.tainted = false)
    (frees : inst.guest.Frees s.ptr.toInt32 s.len.toInt32 (.returned (), g)) :
    Frees inst s (.ok (), inst.withGuest g)
  /-- The trap is not reported; it taints the instance. -/
  | trapped {g : Guest} {t : Trap} (not_null : s.isNull = false) (untainted : inst.tainted = false)
    (frees : inst.guest.Frees s.ptr.toInt32 s.len.toInt32 (.trapped t, g)) :
    Frees inst s (.ok (), (inst.withGuest g).taint)

theorem frees_freeBytes {inst : Instance Guest} (hs : inst.guest.Sound) (s : Span) :
    inst.Frees s ((freeBytes s).perform inst) := by
  cases ht : inst.tainted with
  | true =>
    rw [perform_freeBytes_of_tainted ht]
    exact .nothing (.inr ht)
  | false =>
    cases hnull : s.isNull with
    | true =>
      unfold freeBytes
      rw [perform_ite, if_pos hnull]
      exact .nothing (.inl hnull)
    | false =>
      have hfrees := hs.frees s.ptr.toInt32 s.len.toInt32
      have hcall : (dealloc s.ptr s.len).perform inst = _ :=
        perform_touch_of_call? (t := .dealloc s.ptr s.len) rfl
      rw [perform_call ht] at hcall
      unfold freeBytes
      rw [perform_ite, if_neg (by simp [hnull]), perform_quietly, hcall]
      generalize EntryCall.run inst.guest (.dealloc s.ptr.toInt32 s.len.toInt32) = r at hfrees
      rcases r with ⟨_ | _ | _, g⟩
      · exact .returned hnull ht hfrees
      · exact .trapped hnull ht hfrees
      · cases hfrees

/-- Whatever a holder does with an instance, its guest is visited. -/
theorem history_work (inst : Instance Guest) (c : InstanceOp) :
    ∃ outs backs, inst.guest.History outs backs (inst.work c).guest := by
  have hinvariant : Invariant fun i : Instance Guest =>
      ∃ outs backs, inst.guest.History outs backs i.guest := by
    intro i t ⟨outs, backs, h⟩
    rcases i.guest_touch_cases t with heq | ⟨v, heq⟩ <;> rw [heq]
    · exact ⟨outs, backs, h⟩
    · exact ⟨_, _, h.snoc v⟩
  exact hinvariant.work c ⟨[], [], .nil⟩

/-- A heap in use takes back the live block that is named by its place and its size, and nothing
    else; what is refused leaves it as it is. A guest and the host that frees a range do no more
    than that. So whatever happens to a guest, each block comes back once for each time that it
    is handed out, and no place comes back for a second time before it is handed out again. -/
theorem frees_exactly {maxPages : Nat} {a : Arena} (hu : a.Used maxPages) {inst : Instance Guest}
    (hv : inst.guest.Visited) :
    (∀ ptr size, a.heap.ComesBack ptr size (a.heap.dealloc ptr size) ∧
      ∀ trap, a.heap.dealloc ptr size = .error trap → a.serve (.dealloc ptr size) = a) ∧
      (∀ ptr size, inst.guest.Frees ptr size ((EntryCall.dealloc ptr size).run inst.guest)) ∧
      (∀ s, inst.Frees s ((freeBytes s).perform inst)) ∧
      (∀ c : InstanceOp, ∃ outs backs, inst.guest.History outs backs (inst.work c).guest) ∧
      ∀ outs backs now, inst.guest.History outs backs now →
        (outs ++ inst.guest.heap.live).Perm (backs ++ now.heap.live) ∧
        ∀ place, Block.coverage inst.guest.heap.live place ≤ 1 ∧
          Block.coverage backs place ≤
            Block.coverage outs place + Block.coverage inst.guest.heap.live place := by
  have hs := hv.sound
  refine ⟨fun ptr size => ⟨hu.sound.heap.comesBack ptr size, fun trap hd => ?_⟩, hs.frees,
    frees_freeBytes hs, inst.history_work, fun outs backs now h => ⟨h.perm hs, fun place => ?_⟩⟩
  · simp only [Arena.serve, hd]
  · have hcount := h.coverage_eq hs place
    exact ⟨Block.coverage_live_le_one hs.heap.laid place, by omega⟩

/-- A block comes back, and then the same call traps, as do those for the place in its middle
    and for the block below it, which had come back before. -/
theorem frees_exactly_fragmented :
    ∃ a, a = (Arena.fresh 1 2).after [.alloc 24, .alloc 40, .dealloc 16 24] ∧ a.Used 2 ∧
      fragmented.guest.Visited ∧ fragmented.guest.heap = a.heap ∧
      a.heap.ComesBack 48 8 (a.heap.dealloc 48 8) ∧ a.heap.ComesBack 16 24 (a.heap.dealloc 16 24) ∧
      ∃ now : Guest, fragmented.guest.History [] [⟨40, 40⟩] now ∧ now.heap = Heap.empty ∧
        fragmented.guest.heap.live.Perm (⟨40, 40⟩ :: now.heap.live) := by
  have hfresh : Arena.Used 2 (Arena.fresh 1 2) := .fresh (Nat.le_refl 1) (by decide)
  have hused := hfresh.after [.alloc 24, .alloc 40, .dealloc 16 24]
  have hvisited := reachable_fragmented.visited
  obtain ⟨hheap, -, -, -, hhistory⟩ := frees_exactly hused hvisited
  have htwice := ((History.nil (g := fragmented.guest)).snoc (.call (.dealloc 40 40))).snoc
    (.call (.dealloc 40 40))
  have hbacks : fragmented.guest.takenBack (.call (.dealloc 40 40)) ++
      (fragmented.guest.visit (.call (.dealloc 40 40))).takenBack (.call (.dealloc 40 40)) =
        [⟨40, 40⟩] := by decide +kernel
  have houts : fragmented.guest.handedOut (.call (.dealloc 40 40)) ++
      (fragmented.guest.visit (.call (.dealloc 40 40))).handedOut (.call (.dealloc 40 40)) =
        [] := by decide +kernel
  rw [List.nil_append, List.nil_append, hbacks, houts] at htwice
  exact ⟨_, rfl, hused, hvisited, by decide +kernel, (hheap 48 8).1, (hheap 16 24).1, _, htwice,
    by decide +kernel, (hhistory _ _ _ htwice).1⟩

end Instance

end PathSieve

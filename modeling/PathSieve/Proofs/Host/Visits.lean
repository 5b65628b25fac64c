/-
  Where a guest can get to.

  Whoever has a guest at hand can call each entry point with any numbers and write into the
  memory (`Visit`). Nobody asks for a handle of the right instance or for a mark, and a guest
  goes on after a trap. `Visited` are the guests that some visits lead to from a fresh one.
  They are sound, and the guest of every instance that touches lead to is one of them
  (`Instance.Reachable.visited`).
-/
import PathSieve.Proofs.Host.InstanceOps
import PathSieve.Proofs.Sandbox.Taking

namespace PathSieve

/-- One thing that can be done to a guest. -/
inductive Visit where
  | call (c : EntryCall)
  | store (start : Nat) (bytes : List UInt8)

namespace Guest

/-- The guest after a visit. Bytes that do not fit into the memory are not written. -/
def visit (g : Guest) : Visit → Guest
  | .call c => (c.run g).2
  | .store start bytes =>
    if start + bytes.length ≤ g.memory.size then g.holding start bytes else g

/-- The guests that come about: fresh ones, and what visits make of them. -/
inductive Visited : Guest → Prop where
  | fresh (name : String) (initialPages maxPages : Nat) :
    Visited (fresh name initialPages maxPages)
  | visit {g : Guest} (v : Visit) (h : Visited g) : Visited (g.visit v)

theorem run_dealloc (g : Guest) (ptr size : Int32) :
    (EntryCall.dealloc ptr size).run g =
      match g.dealloc ptr size with
      | .ok g' => (.returned (), g')
      | .error trap => (.trapped trap, g) := by
  simp only [EntryCall.run, Backend.dealloc]
  cases g.dealloc ptr size <;> rfl

/-- An entry point leaves a sound guest sound, however the call ends. -/
theorem Sound.run {g : Guest} (h : g.Sound) (c : EntryCall) : (c.run g).2.Sound := by
  cases c with
  | alloc size => exact h.alloc size
  | dealloc ptr size =>
    rw [run_dealloc]
    cases hd : g.dealloc ptr size with
    | ok g' => exact h.dealloc hd
    | error trap => exact h
  | createMatcher ptr len =>
    simp only [EntryCall.run, Backend.createMatcher]
    cases hc : g.createMatcher ptr len with
    | ok r => exact h.createMatcher hc
    | error trap => exact h
  | destroyMatcher handle => exact h.destroyMatcher handle
  | isMatch handle ptr len isDir => exact h
  | batchFilter handle ptr len info => exact h.batchFilter handle ptr len info

theorem Sound.visit {g : Guest} (h : g.Sound) (v : Visit) : (g.visit v).Sound := by
  cases v with
  | call c => exact h.run c
  | store start bytes =>
    simp only [Guest.visit]
    split
    · exact h.store start bytes
    · exact h

theorem Visited.sound {g : Guest} (h : g.Visited) : g.Sound := by
  induction h with
  | fresh name initialPages maxPages => exact sound_fresh ..
  | visit v _ ih => exact ih.visit v

end Guest

namespace Instance

/-- A touch leaves the guest as it is, or is a visit to it. -/
theorem guest_touch_cases (inst : Instance Guest) (t : Touch) :
    (inst.touch t).guest = inst.guest ∨ ∃ v, (inst.touch t).guest = inst.guest.visit v := by
  by_cases ht : t = .taint
  · subst ht
    exact .inl rfl
  have hmap : inst.touch t = (inst.overheard.touch t).mapGuest Overheard.guest := by
    rw [← work_touch, work_eq_mapGuest, work_touch]
  rw [hmap]
  rcases touch_cases inst.overheard ht with heq | ⟨start, bytes, hin, heq⟩ | ⟨-, c, -, heq⟩ <;>
    rw [heq]
  · exact .inl rfl
  · exact .inr ⟨.store start bytes, (if_pos hin).symm⟩
  · exact .inr ⟨.call c, congrArg (fun r => r.2.guest) (Overheard.run_eq _ c)⟩

/-- The guest of an instance has come about by visits, whatever is done to the instance. -/
theorem invariant_visited : Invariant fun inst : Instance Guest => inst.guest.Visited := by
  intro inst t h
  rcases inst.guest_touch_cases t with heq | ⟨v, heq⟩ <;> rw [heq]
  · exact h
  · exact h.visit v

theorem Reachable.visited {inst : Instance Guest} (h : Reachable inst) : inst.guest.Visited := by
  induction h with
  | fresh id poolId name initialPages maxPages => exact .fresh ..
  | touch t _ ih => exact invariant_visited _ t ih

end Instance

end PathSieve

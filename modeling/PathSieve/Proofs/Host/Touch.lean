/-
  Where an instance can get to.

  Whoever holds an instance can enter its guest with any arguments, write into its memory
  and taint it (`Touch`). Everything else that the host offers is put together from these,
  so what every touch leaves true stays true (`Invariant`) under every action of the host,
  however it ends. The actions of the host do not taint themselves, and some touch nothing
  but the memory; for these, less has to be kept (`Steady`, `KeptInMemory`). `Reachable` are
  the instances over the guest that evaluates rule sets which some touches lead to from a
  fresh one; their guests are sound.
-/
import PathSieve.Proofs.Host.Action
import PathSieve.Proofs.Sandbox.Sound

namespace PathSieve

/-- One thing that can be done to an instance. -/
inductive Touch where
  | alloc (size : Nat)
  | dealloc (ptr len : UInt32)
  | createMatcher (ptr len : UInt32)
  | destroyMatcher (h : Handle)
  | isMatch (h : Handle) (ptr len : UInt32) (isDir : Bool)
  | batchFilter (h : Handle) (ptr len info : UInt32)
  | store (start : Nat) (bytes : List UInt8)
  | taint

/-- Does a touch take memory, give it back or write to it? -/
def Touch.InMemory : Touch → Prop
  | .alloc _ | .dealloc _ _ | .store _ _ => True
  | _ => False

namespace Instance

variable {σ α : Type} [Backend σ]

/-- The instance after a touch. -/
def touch (inst : Instance σ) : Touch → Instance σ
  | .alloc size => ((alloc size).perform inst).2
  | .dealloc ptr len => ((dealloc ptr len).perform inst).2
  | .createMatcher ptr len => ((createMatcher ptr len).perform inst).2
  | .destroyMatcher h => ((destroyMatcher h).perform inst).2
  | .isMatch h ptr len isDir => ((isMatch h ptr len isDir).perform inst).2
  | .batchFilter h ptr len info => ((batchFilter h ptr len info).perform inst).2
  | .store start bytes => ((store start bytes).perform inst).2
  | .taint => inst.taint

/-- What no touch makes untrue. -/
def Invariant (P : Instance σ → Prop) : Prop :=
  ∀ inst (t : Touch), P inst → P (inst.touch t)

/-- What no touch but the taint makes untrue. -/
def Steady (P : Instance σ → Prop) : Prop :=
  ∀ inst (t : Touch), t ≠ .taint → P inst → P (inst.touch t)

/-- What no touch of the memory makes untrue. -/
def KeptInMemory (P : Instance σ → Prop) : Prop :=
  ∀ inst (t : Touch), t.InMemory → P inst → P (inst.touch t)

open PathSieve.Action

variable {P : Instance σ → Prop}

theorem keeps_load (start len : Nat) : Keeps P (load start len) :=
  keeps_bind keeps_get fun _ => keeps_ite (keeps_unwind _) (keeps_pure _)

theorem keeps_readBytes (s : Span) : Keeps P (readBytes s) :=
  keeps_ite (keeps_pure _)
    (keeps_bind keeps_get fun _ => keeps_ite (keeps_fail _) (keeps_load _ _))

namespace KeptInMemory

theorem freeBytes (hP : KeptInMemory P) (s : Span) : Keeps P (freeBytes s) :=
  keeps_ite (keeps_pure ()) (keeps_quietly fun inst => hP inst (.dealloc s.ptr s.len) trivial)

theorem writeBytes (hP : KeptInMemory P) (bytes : List UInt8) : Keeps P (writeBytes bytes) := by
  refine keeps_ite (keeps_pure _) ?_
  refine keeps_bind (fun inst => hP inst (.alloc _) trivial) fun ptr => ?_
  refine keeps_ite (keeps_fail _) (keeps_bind keeps_get fun inst => ?_)
  refine keeps_ite (keeps_bind (hP.freeBytes _) fun _ => keeps_fail _) ?_
  exact keeps_bind (fun inst => hP inst (.store ptr.toNat bytes) trivial) fun _ => keeps_pure _

theorem withBuffer (hP : KeptInMemory P) (bytes : List UInt8) {body : Span → Action σ α}
    (hbody : ∀ s, Keeps P (body s)) : Keeps P (withBuffer bytes body) :=
  keeps_bind (hP.writeBytes bytes) fun s => keeps_ensuring (hbody s) (hP.freeBytes s)

theorem compile (hP : KeptInMemory P) (hcreate : ∀ ptr len, Keeps P (createMatcher ptr len))
    (rules : String) : Keeps P (compile rules) :=
  keeps_bind (hP.withBuffer _ fun s => hcreate s.ptr s.len) fun _ =>
    keeps_bind keeps_get fun _ => keeps_give _

theorem ask (hP : KeptInMemory P) {h : Handle}
    (hmatch : ∀ ptr len isDir, Keeps P (isMatch h ptr len isDir)) (path : List UInt8)
    (isDir : Bool) : Keeps P (ask h path isDir) :=
  keeps_bind (hP.withBuffer _ fun s => hmatch s.ptr s.len isDir) fun _ => keeps_give _

theorem fetchResult (hP : KeptInMemory P) (count : Nat) (descriptor : Span) :
    Keeps P (fetchResult count descriptor) := by
  have hspan : ∀ bytes : List UInt8, Keeps P (spanOf bytes) := by
    intro bytes
    unfold spanOf
    split
    · exact keeps_pure _
    · exact keeps_unwind _
  refine keeps_bind (keeps_readBytes descriptor) fun bytes => keeps_bind (hspan bytes) fun s => ?_
  refine keeps_ite (keeps_fail _) (keeps_bind
    (keeps_ensuring (keeps_readBytes s) (hP.freeBytes s)) fun bytes => ?_)
  split
  · exact keeps_pure _
  · exact keeps_fail _

theorem filter (hP : KeptInMemory P) {h : Handle}
    (hfilter : ∀ ptr len info, Keeps P (batchFilter h ptr len info)) (paths : List String) :
    Keeps P (filter h paths) := by
  refine keeps_ite (keeps_pure _) (hP.withBuffer _ fun text => hP.withBuffer _ fun info => ?_)
  refine keeps_bind (hfilter text.ptr text.len info.ptr) fun _ => ?_
  exact keeps_bind (keeps_give _) fun count =>
    keeps_ite (keeps_pure _) (hP.fetchResult count info)

end KeptInMemory

namespace Steady

theorem inMemory (hP : Steady P) : KeptInMemory P := by
  intro inst t ht
  refine hP inst t ?_
  rintro rfl
  exact ht

theorem compile (hP : Steady P) (rules : String) : Keeps P (compile rules) :=
  hP.inMemory.compile (fun ptr len inst => hP inst (.createMatcher ptr len) (by simp)) rules

theorem destroy (hP : Steady P) (h : Handle) : Keeps P (destroy h) :=
  fun inst => hP inst (.destroyMatcher h) (by simp)

theorem ask (hP : Steady P) (h : Handle) (path : List UInt8) (isDir : Bool) :
    Keeps P (ask h path isDir) :=
  hP.inMemory.ask (fun ptr len isDir inst => hP inst (.isMatch h ptr len isDir) (by simp)) path
    isDir

theorem filter (hP : Steady P) (h : Handle) (paths : List String) :
    Keeps P (filter h paths) :=
  hP.inMemory.filter (fun ptr len info inst => hP inst (.batchFilter h ptr len info) (by simp))
    paths

theorem withCompiled (hP : Steady P) (rules : String) {body : Handle → Action σ α}
    (hbody : ∀ h, Keeps P (body h)) : Keeps P (withCompiled rules body) :=
  keeps_bind (hP.compile rules) fun h =>
    keeps_ensuring (hbody h) (keeps_quietly (hP.destroy h))

end Steady

namespace Invariant

theorem steady (hP : Invariant P) : Steady P :=
  fun inst t _ => hP inst t

theorem compile (hP : Invariant P) (rules : String) : Keeps P (compile rules) :=
  hP.steady.compile rules

theorem destroy (hP : Invariant P) (h : Handle) : Keeps P (destroy h) :=
  hP.steady.destroy h

theorem ask (hP : Invariant P) (h : Handle) (path : List UInt8) (isDir : Bool) :
    Keeps P (ask h path isDir) :=
  hP.steady.ask h path isDir

theorem filter (hP : Invariant P) (h : Handle) (paths : List String) :
    Keeps P (filter h paths) :=
  hP.steady.filter h paths

end Invariant

/-! ## Instances over the guest that evaluates rule sets -/

omit [Backend σ] in
/-- What holds of every guest that an entry point leaves holds after it has been entered. -/
theorem keeps_call {P : σ → Prop} (entry : EntryPoint) {f : σ → Reply α × σ}
    (hf : ∀ g, P g → P (f g).2) : Action.Keeps (fun inst => P inst.guest) (call entry f) := by
  intro inst h
  have h' := hf _ h
  cases ht : inst.tainted with
  | true => rwa [perform_call_of_tainted ht]
  | false =>
    rw [perform_call ht]
    rcases hg : f inst.guest with ⟨_ | _ | _, g⟩ <;> rw [hg] at h' <;> exact h'

omit [Backend σ] in
theorem keeps_rawOf {P : Instance σ → Prop} (h : Handle) : Action.Keeps P (rawOf h) :=
  Action.keeps_bind Action.keeps_get fun _ =>
    Action.keeps_ite (Action.keeps_pure _) (Action.keeps_fail _)

/-- A guest is sound, whatever is done to it. -/
theorem invariant_sound : Invariant fun inst : Instance Guest => inst.guest.Sound := by
  intro inst t h
  cases t with
  | alloc size =>
    exact Action.keeps_ite (Action.keeps_fail _) (Action.keeps_bind
      (keeps_call .alloc fun g hg => hg.alloc _) fun _ => Action.keeps_pure _) inst h
  | dealloc ptr len =>
    refine keeps_call .dealloc (fun g hg => ?_) inst h
    cases hd : g.dealloc ptr.toInt32 len.toInt32 with
    | error trap => simpa [Backend.dealloc, hd, Guest.settle, Except.map] using hg
    | ok g' => simpa [Backend.dealloc, hd, Guest.settle, Except.map] using hg.dealloc hd
  | createMatcher ptr len =>
    refine keeps_call .createMatcher (fun g hg => ?_) inst h
    cases hc : g.createMatcher ptr.toInt32 len.toInt32 with
    | error trap => simpa [Backend.createMatcher, hc, Guest.settle] using hg
    | ok r => simpa [Backend.createMatcher, hc, Guest.settle] using hg.createMatcher hc
  | destroyMatcher handle =>
    exact Action.keeps_bind (keeps_rawOf handle) (fun raw =>
      keeps_call .destroyMatcher fun g hg => hg.destroyMatcher raw) inst h
  | isMatch handle ptr len isDir =>
    exact Action.keeps_bind (keeps_rawOf handle) (fun raw =>
      keeps_call .isMatch fun g hg => hg) inst h
  | batchFilter handle ptr len info =>
    exact Action.keeps_bind (keeps_rawOf handle) (fun raw =>
      keeps_call .batchFilter fun g hg => hg.batchFilter raw _ _ _) inst h
  | store start bytes =>
    show ((store start bytes).perform inst).2.guest.Sound
    by_cases hin : start + bytes.length ≤ inst.memorySize
    · rw [perform_store hin]
      exact h.store start bytes
    · rw [perform_store_of_lt (Nat.lt_of_not_le hin)]
      exact h
  | taint => exact h

/-- The instances that come about: fresh ones, and what touches make of them. -/
inductive Reachable : Instance Guest → Prop where
  | fresh (id poolId : Nat) (name : String) (initialPages maxPages : Nat) :
    Reachable
      { id := id, poolId := poolId, name := name, guest := Guest.fresh name initialPages maxPages }
  | touch {inst : Instance Guest} (t : Touch) (h : Reachable inst) : Reachable (inst.touch t)

theorem invariant_reachable : Invariant Reachable := fun _ t h => h.touch t

theorem Reachable.sound {inst : Instance Guest} (h : Reachable inst) : inst.guest.Sound := by
  induction h with
  | fresh id poolId name initialPages maxPages => exact Guest.sound_fresh ..
  | touch t _ ih => exact invariant_sound _ t ih

end Instance

end PathSieve

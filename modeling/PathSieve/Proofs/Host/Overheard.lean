/-
  Guests that are listened to.

  An overheard guest behaves as the guest inside. It remembers the calls that have reached
  it, in order, each with all its arguments and with the way it has ended. An action of the
  host ends on an overheard guest as it does when nobody listens, so what is heard during an
  action is what the host asks of the guest itself. A touch of an overheard instance is heard
  as one call, or it is not heard and leaves the mark of the instance (`touch_cases`).
-/
import PathSieve.Proofs.Host.Reflection
import PathSieve.Proofs.Host.Touch

namespace PathSieve

/-- A call of an entry point with its arguments. -/
inductive EntryCall where
  | alloc (size : Int32)
  | dealloc (ptr size : Int32)
  | createMatcher (ptr len : Int32)
  | destroyMatcher (handle : Int32)
  | isMatch (handle ptr len isDir : Int32)
  | batchFilter (handle ptr len info : Int32)
  deriving DecidableEq, Repr

/-- The ways in which a call can end. -/
inductive Ending where
  | returned
  | trapped
  | panicked
  deriving DecidableEq, Repr

namespace Reply

variable {α : Type}

/-- The way in which a call has ended. -/
def ending : Reply α → Ending
  | .returned _ => .returned
  | .trapped _ => .trapped
  | .panicked _ => .panicked

/-- The reply without its value. -/
def bare : Reply α → Reply Unit
  | .returned _ => .returned ()
  | .trapped trap => .trapped trap
  | .panicked text => .panicked text

@[simp] theorem ending_bare (r : Reply α) : r.bare.ending = r.ending := by
  cases r <;> rfl

end Reply

namespace EntryCall

/-- The entry point that a call goes to. -/
def entry : EntryCall → EntryPoint
  | .alloc _ => .alloc
  | .dealloc _ _ => .dealloc
  | .createMatcher _ _ => .createMatcher
  | .destroyMatcher _ => .destroyMatcher
  | .isMatch _ _ _ _ => .isMatch
  | .batchFilter _ _ _ _ => .batchFilter

/-- Make a call, whatever it returns. -/
def run {σ : Type} [Backend σ] (g : σ) : EntryCall → Reply Unit × σ
  | .alloc size => (Backend.alloc g size).map .bare id
  | .dealloc ptr size => (Backend.dealloc g ptr size).map .bare id
  | .createMatcher ptr len => (Backend.createMatcher g ptr len).map .bare id
  | .destroyMatcher handle => (Backend.destroyMatcher g handle).map .bare id
  | .isMatch handle ptr len isDir => (Backend.isMatch g handle ptr len isDir).map .bare id
  | .batchFilter handle ptr len info => (Backend.batchFilter g handle ptr len info).map .bare id

/-- Does a call take memory or give it back? -/
def InMemory : EntryCall → Prop
  | .alloc _ | .dealloc _ _ => True
  | _ => False

end EntryCall

/-- A call that has reached the guest, and how it has ended. -/
structure Crossing where
  call : EntryCall
  ending : Ending
  deriving DecidableEq, Repr

/-- A guest with the calls that have reached it, the first one first. -/
structure Overheard (σ : Type) where
  guest : σ
  heard : List Crossing := []

namespace Overheard

variable {σ α : Type}

/-- A call, which is remembered after it. -/
def enter (o : Overheard σ) (call : EntryCall) (f : σ → Reply α × σ) : Reply α × Overheard σ :=
  let (reply, guest) := f o.guest
  (reply, ⟨guest, o.heard ++ [⟨call, reply.ending⟩]⟩)

variable [Backend σ]

instance : Backend (Overheard σ) where
  alloc o size := o.enter (.alloc size) (Backend.alloc · size)
  dealloc o ptr size := o.enter (.dealloc ptr size) (Backend.dealloc · ptr size)
  createMatcher o ptr len := o.enter (.createMatcher ptr len) (Backend.createMatcher · ptr len)
  destroyMatcher o handle := o.enter (.destroyMatcher handle) (Backend.destroyMatcher · handle)
  isMatch o handle ptr len isDir :=
    o.enter (.isMatch handle ptr len isDir) (Backend.isMatch · handle ptr len isDir)
  batchFilter o handle ptr len info :=
    o.enter (.batchFilter handle ptr len info) (Backend.batchFilter · handle ptr len info)
  memorySize o := Backend.memorySize o.guest
  byteAt o i := Backend.byteAt o.guest i
  store o start bytes := { o with guest := Backend.store o.guest start bytes }

/-- Listening changes no call. -/
theorem reflects_guest : Backend.Reflects (guest : Overheard σ → σ) where
  alloc _ _ := rfl
  dealloc _ _ _ := rfl
  createMatcher _ _ _ := rfl
  destroyMatcher _ _ := rfl
  isMatch _ _ _ _ _ := rfl
  batchFilter _ _ _ _ _ := rfl
  memorySize _ := rfl
  byteAt _ _ _ := rfl
  store _ _ _ := rfl

theorem run_eq (o : Overheard σ) (c : EntryCall) : c.run o = o.enter c (c.run ·) := by
  cases c <;> simp only [EntryCall.run, enter, Backend.alloc, Backend.dealloc,
    Backend.createMatcher, Backend.destroyMatcher, Backend.isMatch, Backend.batchFilter,
    Prod.map, id_eq, Reply.ending_bare]

end Overheard

namespace Touch

/-- The call that a touch of the instance with an id makes. One with a handle of another
    instance, or with a size that nobody can ask for, is turned away before. -/
def call? (id : Nat) : Touch → Option EntryCall
  | .alloc size =>
    if Instance.maxAllocation < size then none else some (.alloc (Int32.ofNat size))
  | .dealloc ptr len => some (.dealloc ptr.toInt32 len.toInt32)
  | .createMatcher ptr len => some (.createMatcher ptr.toInt32 len.toInt32)
  | .destroyMatcher h => if h.instanceId = id then some (.destroyMatcher h.raw) else none
  | .isMatch h ptr len isDir =>
    if h.instanceId = id then
      some (.isMatch h.raw ptr.toInt32 len.toInt32 (if isDir then 1 else 0))
    else none
  | .batchFilter h ptr len info =>
    if h.instanceId = id then
      some (.batchFilter h.raw ptr.toInt32 len.toInt32 info.toInt32)
    else none
  | .store _ _ | .taint => none

/-- The action that a touch stands for. -/
def action {σ : Type} [Backend σ] : Touch → Action σ Unit
  | .alloc size => do
    let _ ← Instance.alloc size
    pure ()
  | .dealloc ptr len => Instance.dealloc ptr len
  | .createMatcher ptr len => do
    let _ ← Instance.createMatcher ptr len
    pure ()
  | .destroyMatcher h => Instance.destroyMatcher h
  | .isMatch h ptr len isDir => do
    let _ ← Instance.isMatch h ptr len isDir
    pure ()
  | .batchFilter h ptr len info => do
    let _ ← Instance.batchFilter h ptr len info
    pure ()
  | .store start bytes => Instance.store start bytes
  | .taint => do
    let inst ← get
    set inst.taint

theorem InMemory.of_call? {t : Touch} {id : Nat} {c : EntryCall} (ht : t.InMemory)
    (h : t.call? id = some c) : c.InMemory := by
  unfold call? at h
  cases t with
  | alloc size =>
    simp only [Option.ite_none_left_eq_some, Option.some.injEq] at h
    exact h.2 ▸ trivial
  | dealloc ptr len => exact Option.some.inj h ▸ trivial
  | store start bytes => cases h
  | _ => exact ht.elim

end Touch

namespace Instance

open PathSieve.Action

variable {σ α : Type}

/-- What a call returns has no part in what it does to the instance. -/
theorem perform_call_bare (entry : EntryPoint) (f : σ → Reply α × σ) (inst : Instance σ) :
    (call entry fun g => ((f g).1.bare, (f g).2)).perform inst =
      (call entry f >>= fun _ => pure ()).perform inst := by
  rw [perform_bind]
  cases ht : inst.tainted with
  | true => rw [perform_call_of_tainted ht, perform_call_of_tainted ht]
  | false =>
    rw [perform_call ht, perform_call ht]
    rcases f inst.guest with ⟨_ | _ | _, g⟩ <;> rfl

/-- A handle of the instance itself has its number there. -/
theorem perform_rawOf_bind {h : Handle} {inst : Instance σ} (hown : h.instanceId = inst.id)
    (k : Int32 → Action σ α) : (rawOf h >>= k).perform inst = (k h.raw).perform inst := by
  rw [perform_bind, perform_rawOf, if_pos hown]

variable [Backend σ]

theorem touch_eq_perform (inst : Instance σ) (t : Touch) :
    inst.touch t = (t.action.perform inst).2 := by
  cases t with
  | alloc size => exact (snd_perform_bind_pure ..).symm
  | createMatcher ptr len => exact (snd_perform_bind_pure ..).symm
  | isMatch h ptr len isDir => exact (snd_perform_bind_pure ..).symm
  | batchFilter h ptr len info => exact (snd_perform_bind_pure ..).symm
  | _ => rfl

/-- A touch that is not turned away makes its call, and does nothing else. -/
theorem perform_touch_of_call? {inst : Instance σ} {t : Touch} {c : EntryCall}
    (h : t.call? inst.id = some c) :
    t.action.perform inst = (call c.entry (c.run ·)).perform inst := by
  unfold Touch.call? at h
  cases t with
  | alloc size =>
    simp only [Option.ite_none_left_eq_some, Option.some.injEq] at h
    obtain ⟨hmax, rfl⟩ := h
    refine Eq.trans ?_ (perform_call_bare .alloc _ inst).symm
    simp only [Touch.action, alloc, if_neg hmax, bind_assoc, pure_bind]
    rfl
  | dealloc ptr len =>
    obtain rfl := Option.some.inj h
    refine Eq.trans ?_ (perform_call_bare .dealloc _ inst).symm
    rw [bind_pure_unit]
    rfl
  | createMatcher ptr len =>
    obtain rfl := Option.some.inj h
    exact (perform_call_bare .createMatcher _ inst).symm
  | destroyMatcher handle =>
    simp only [Option.ite_none_right_eq_some, Option.some.injEq] at h
    obtain ⟨hown, rfl⟩ := h
    refine Eq.trans ?_ (perform_call_bare .destroyMatcher _ inst).symm
    rw [bind_pure_unit]
    exact perform_rawOf_bind hown _
  | isMatch handle ptr len isDir =>
    simp only [Option.ite_none_right_eq_some, Option.some.injEq] at h
    obtain ⟨hown, rfl⟩ := h
    refine Eq.trans ?_ (perform_call_bare .isMatch _ inst).symm
    simp only [Touch.action, isMatch, bind_assoc, perform_rawOf_bind hown]
    rfl
  | batchFilter handle ptr len info =>
    simp only [Option.ite_none_right_eq_some, Option.some.injEq] at h
    obtain ⟨hown, rfl⟩ := h
    refine Eq.trans ?_ (perform_call_bare .batchFilter _ inst).symm
    simp only [Touch.action, batchFilter, bind_assoc, perform_rawOf_bind hown]
    rfl
  | store start bytes => cases h
  | taint => cases h

/-- A tainted instance turns every call away. -/
theorem perform_touch_of_tainted {inst : Instance σ} (ht : inst.tainted = true) {t : Touch}
    {c : EntryCall} (h : t.call? inst.id = some c) :
    t.action.perform inst =
      (.error (.error (.transport c.entry (.tainted inst.name))), inst) := by
  rw [perform_touch_of_call? h, perform_call_of_tainted ht]

/-! ## What is heard -/

/-- The instance with its guest listened to from now on. -/
def overheard (inst : Instance σ) : Instance (Overheard σ) :=
  ⟨inst.id, inst.poolId, inst.name, ⟨inst.guest, []⟩, inst.tainted⟩

section Hears

variable (inst : Instance (Overheard σ))

/-- The instance when bytes have been written into its memory. -/
def stores (start : Nat) (bytes : List UInt8) : Instance (Overheard σ) :=
  { inst with guest := Backend.store inst.guest start bytes }

/-- The instance when one more call has reached its guest. -/
def hears (c : EntryCall) : Instance (Overheard σ) :=
  { inst with
    guest := (c.run inst.guest).2
    tainted := inst.tainted || (c.run inst.guest).1.ending == .trapped }

@[simp] theorem heard_hears (c : EntryCall) :
    (inst.hears c).guest.heard =
      inst.guest.heard ++ [⟨c, (c.run inst.guest.guest).1.ending⟩] := by
  unfold hears
  rw [Overheard.run_eq]
  rfl

@[simp] theorem tainted_hears (c : EntryCall) :
    (inst.hears c).tainted =
      (inst.tainted || (c.run inst.guest.guest).1.ending == .trapped) := by
  unfold hears
  rw [Overheard.run_eq]
  rfl

/-- A call through the host reaches the guest, unless the instance is tainted. -/
theorem perform_run (c : EntryCall) :
    ((call c.entry (c.run ·)).perform inst).2 = if inst.tainted then inst else inst.hears c := by
  cases ht : inst.tainted with
  | true =>
    rw [perform_call_of_tainted ht]
    rfl
  | false =>
    rw [perform_call ht]
    unfold hears
    rcases c.run inst.guest with ⟨_ | _ | _, g⟩ <;> simp only [ht] <;> rfl

/-- All that a touch can do to an overheard instance, unless it is the taint. -/
theorem touch_cases {t : Touch} (ht : t ≠ .taint) :
    inst.touch t = inst ∨
      (∃ start bytes, start + bytes.length ≤ inst.memorySize ∧
        inst.touch t = inst.stores start bytes) ∨
      (inst.tainted = false ∧ ∃ c, t.call? inst.id = some c ∧ inst.touch t = inst.hears c) := by
  cases hcall : t.call? inst.id with
  | some c =>
    rw [touch_eq_perform, perform_touch_of_call? hcall, perform_run]
    cases hi : inst.tainted with
    | true => exact .inl rfl
    | false => exact .inr (.inr ⟨rfl, c, rfl, rfl⟩)
  | none =>
    have hraw {α : Type} {h : Handle} (hforeign : ¬ h.instanceId = inst.id)
        (k : Int32 → Action (Overheard σ) α) : ((rawOf h >>= k).perform inst).2 = inst := by
      rw [perform_bind, perform_rawOf, if_neg hforeign]
    unfold Touch.call? at hcall
    cases t with
    | alloc size =>
      have hmax : maxAllocation < size := by simpa using hcall
      refine .inl ?_
      show ((alloc size).perform inst).2 = inst
      unfold alloc
      rw [if_pos hmax, perform_fail]
    | destroyMatcher h => exact .inl (hraw (by simpa using hcall) _)
    | isMatch h ptr len isDir => exact .inl (hraw (by simpa using hcall) _)
    | batchFilter h ptr len info => exact .inl (hraw (by simpa using hcall) _)
    | store start bytes =>
      by_cases hin : start + bytes.length ≤ inst.memorySize
      · exact .inr (.inl ⟨start, bytes, hin, congrArg Prod.snd (perform_store hin)⟩)
      · exact .inl (perform_store_of_lt (Nat.lt_of_not_le hin))
    | taint => exact absurd rfl ht
    | dealloc ptr len => cases hcall
    | createMatcher ptr len => cases hcall

end Hears

variable {P : Instance (Overheard σ) → Prop}

/-- What no call makes untrue, and no bytes that are written. -/
theorem steady_of_hears (hstores : ∀ inst start bytes, P inst → P (inst.stores start bytes))
    (hhears : ∀ inst c, P inst → inst.tainted = false → P (inst.hears c)) : Steady P := by
  intro inst t ht h
  rcases touch_cases inst ht with heq | ⟨start, bytes, -, heq⟩ | ⟨hfalse, c, -, heq⟩
  · rwa [heq]
  · exact heq ▸ hstores inst start bytes h
  · exact heq ▸ hhears inst c h hfalse

theorem keptInMemory_of_hears (hstores : ∀ inst start bytes, P inst → P (inst.stores start bytes))
    (hhears : ∀ inst c, P inst → c.InMemory → P (inst.hears c)) : KeptInMemory P := by
  intro inst t ht h
  have hne : t ≠ .taint := by
    rintro rfl
    exact ht
  rcases touch_cases inst hne with heq | ⟨start, bytes, -, heq⟩ | ⟨-, c, hcall, heq⟩
  · rwa [heq]
  · exact heq ▸ hstores inst start bytes h
  · exact heq ▸ hhears inst c h (ht.of_call? hcall)

end Instance

end PathSieve

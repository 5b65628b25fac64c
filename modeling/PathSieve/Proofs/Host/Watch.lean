/-
  Guests whose calls are written down.

  A watched guest behaves as the guest inside, keeps a log of what it is asked and of what
  comes of it, and shows zeros outside the memory. An action of the host ends on a watched
  guest as it does on the guest itself (`Mirrors`). So a log says what the host asks of the
  guest when nobody watches, and nothing outside the memory has a part in what it does.
-/
import PathSieve.Proofs.Host.Reflection

namespace PathSieve

/-- The value of a call that returns. -/
def Reply.value? {α : Type} : Reply α → Option α
  | .returned a => some a
  | _ => none

/-- One thing that a guest has been asked, and what has come of it: without a value, or with
    `false`, the call has not returned. -/
inductive Record where
  | alloc (size : Int32) (ptr? : Option Int32)
  | dealloc (ptr size : Int32) (returned : Bool)
  /-- The range is the one that the descriptor tells of after the call. -/
  | batchFilter (count? : Option Int32) (described : Option Span)
  /-- A call of another entry point. -/
  | other (entry : EntryPoint) (returned : Bool)
  /-- Bytes have been written from `start` on when the memory had a given size. -/
  | store (start len size : Nat)
  deriving DecidableEq, Repr

section Descriptor

variable {σ : Type} [Backend σ]

/-- The number that four bytes of a guest's memory stand for. -/
def wordAt (g : σ) (i : Nat) : UInt32 :=
  Instance.wordOf (Backend.byteAt g i) (Backend.byteAt g (i + 1)) (Backend.byteAt g (i + 2))
    (Backend.byteAt g (i + 3))

/-- The range that a descriptor tells of, if it can be read. -/
def describedAt (g : σ) (info : UInt32) : Option Span :=
  if Backend.memorySize g < info.toNat + Instance.descriptorSize then none
  else some ⟨wordAt g info.toNat, wordAt g (info.toNat + 4)⟩

end Descriptor

/-- A guest with the log of what it has been asked, the first thing first. -/
structure Watched (σ : Type) where
  guest : σ
  log : List Record := []

namespace Watched

variable {σ α : Type}

/-- A call, which is written down after it. -/
def enter (w : Watched σ) (f : σ → Reply α × σ) (record : Reply α → σ → Record) :
    Reply α × Watched σ :=
  let (reply, guest) := f w.guest
  (reply, ⟨guest, w.log ++ [record reply guest]⟩)

variable [Backend σ]

instance : Backend (Watched σ) where
  alloc w size := w.enter (Backend.alloc · size) fun r _ => .alloc size r.value?
  dealloc w ptr size :=
    w.enter (Backend.dealloc · ptr size) fun r _ => .dealloc ptr size r.value?.isSome
  createMatcher w ptr len :=
    w.enter (Backend.createMatcher · ptr len) fun r _ => .other .createMatcher r.value?.isSome
  destroyMatcher w handle :=
    w.enter (Backend.destroyMatcher · handle) fun r _ => .other .destroyMatcher r.value?.isSome
  isMatch w handle ptr len isDir :=
    w.enter (Backend.isMatch · handle ptr len isDir) fun r _ => .other .isMatch r.value?.isSome
  batchFilter w handle ptr len info :=
    w.enter (Backend.batchFilter · handle ptr len info) fun r g =>
      .batchFilter r.value? (describedAt g info.toUInt32)
  memorySize w := Backend.memorySize w.guest
  byteAt w i := if i < Backend.memorySize w.guest then Backend.byteAt w.guest i else 0
  store w start bytes :=
    ⟨Backend.store w.guest start bytes,
      w.log ++ [.store start bytes.length (Backend.memorySize w.guest)]⟩

/-- Watching changes no call. -/
theorem reflects_guest : Backend.Reflects (guest : Watched σ → σ) where
  alloc _ _ := rfl
  dealloc _ _ _ := rfl
  createMatcher _ _ _ := rfl
  destroyMatcher _ _ := rfl
  isMatch _ _ _ _ _ := rfl
  batchFilter _ _ _ _ _ := rfl
  memorySize _ := rfl
  byteAt _ _ h := (if_pos h).symm
  store _ _ _ := rfl

/-- Inside the memory a watched guest shows what is there. -/
theorem describedAt_eq (w : Watched σ) (info : UInt32) :
    describedAt w info = describedAt w.guest info := by
  unfold describedAt
  by_cases h : Backend.memorySize w.guest < info.toNat + Instance.descriptorSize
  · exact (if_pos h).trans (if_pos h).symm
  · have hbyte : ∀ i < info.toNat + 8, Backend.byteAt w i = Backend.byteAt w.guest i :=
      fun i hi => if_pos (Nat.lt_of_lt_of_le hi (Nat.le_of_not_lt h))
    have hwords : wordAt w info.toNat = wordAt w.guest info.toNat ∧
        wordAt w (info.toNat + 4) = wordAt w.guest (info.toNat + 4) := by
      unfold wordAt
      repeat rw [hbyte _ (by omega)]
      exact ⟨rfl, rfl⟩
    rw [hwords.1, hwords.2]
    rfl

end Watched

namespace Instance

variable {σ α : Type}

/-- The instance with its guest watched from now on. -/
def watched (inst : Instance σ) : Instance (Watched σ) :=
  ⟨inst.id, inst.poolId, inst.name, ⟨inst.guest, []⟩, inst.tainted⟩

/-- The instance with its guest no longer watched. -/
def plain (inst : Instance (Watched σ)) : Instance σ :=
  ⟨inst.id, inst.poolId, inst.name, inst.guest.guest, inst.tainted⟩

@[simp] theorem plain_watched (inst : Instance σ) : inst.watched.plain = inst := rfl

/-! ## Actions that are the same whether the guest is watched or not -/

/-- The action ends on every watched guest as the other one does on the guest itself. -/
def Mirrors (a : Action (Watched σ) α) (b : Action σ α) : Prop :=
  ∀ inst, b.perform inst.plain = ((a.perform inst).1, (a.perform inst).2.plain)

theorem mirrors_of_follows {a : Action (Watched σ) α} {b : Action σ α}
    (h : Follows Watched.guest a b) : Mirrors a b := h

end Instance

end PathSieve

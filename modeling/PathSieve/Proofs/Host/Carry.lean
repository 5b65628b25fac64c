/-
  Carrying bytes to the guest that evaluates rule sets.

  On an instance that is not tainted and whose guest is sound, placing bytes fails exactly
  when no memory can be taken for them. Otherwise they lie where the host was told, and
  when the action on them leaves the heap as it was, so does the whole, the placing and
  the giving back included (`Leaves`, `perform_withBuffer`).
-/
import PathSieve.Proofs.Host.Action
import PathSieve.Proofs.Sandbox.Taking

namespace PathSieve

/-- The range of `len` bytes at `ptr`. -/
def Span.ofNat (ptr len : Nat) : Span :=
  ⟨UInt32.ofNat ptr, UInt32.ofNat len⟩

/-- The instance with another guest. -/
def Instance.withGuest {σ : Type} (inst : Instance σ) (g : σ) : Instance σ :=
  { inst with guest := g }

@[simp] theorem Instance.withGuest_guest {σ : Type} (inst : Instance σ) (g : σ) :
    (inst.withGuest g).guest = g := rfl

theorem Span.isNull_ofNat {ptr len : Nat} (hp : ptr < 0x100000000) (hl : len < 0x100000000) :
    (Span.ofNat ptr len).isNull = (decide (ptr = 0) || decide (len = 0)) := by
  simp only [Span.isNull, Span.ofNat, uint32_ofNat_eq_zero_iff hp, uint32_ofNat_eq_zero_iff hl]

namespace Instance

open Guest PathSieve.Action

variable {α : Type} {inst : Instance Guest}

/-- What comes of asking the guest for memory. -/
theorem perform_alloc (ht : inst.tainted = false) {size : Nat} (hpos : 0 < size)
    (hmax : size ≤ maxAllocation) :
    (alloc size).perform inst =
      match inst.guest.heap.alloc? inst.guest.memory size with
      | some (ptr, heap, memory) =>
        (.ok (UInt32.ofNat ptr),
          inst.withGuest { inst.guest with heap := heap, memory := memory })
      | none => (.ok 0, inst) := by
  have hlt : size < 0x80000000 := by
    simp only [maxAllocation] at hmax
    omega
  unfold alloc
  simp only [if_neg (Nat.not_lt.mpr hmax), perform_bind, perform_call ht, Backend.alloc,
    Guest.alloc, int32_ofNat, if_neg (not_ofWord_le_zero hpos hlt),
    word_ofWord (Nat.lt_trans hlt (by decide))]
  cases inst.guest.heap.alloc? inst.guest.memory size <;> rfl

theorem perform_writeBytes_none (ht : inst.tainted = false) {bytes : List UInt8}
    (h : inst.guest.take? bytes.length = none) :
    (writeBytes bytes).perform inst =
      (.error (.error (.allocationFailed bytes.length)), inst) := by
  unfold take? at h
  split at h
  · simp at h
  next hlen =>
  have hne : bytes.isEmpty = false := by
    simpa [List.isEmpty_iff_length_eq_zero] using hlen
  unfold writeBytes
  simp only [hne, Bool.false_eq_true, if_false, perform_bind]
  split at h
  · next hmax =>
    unfold alloc
    simp only [if_pos hmax, perform_fail]
  next hmax =>
  rw [perform_alloc ht (by omega) (by omega), Option.map_eq_none_iff.mp h]
  rfl

theorem perform_writeBytes (hs : inst.guest.Sound) (ht : inst.tainted = false)
    {bytes : List UInt8} {ptr : Nat} {g : Guest}
    (h : inst.guest.take? bytes.length = some (ptr, g)) :
    (writeBytes bytes).perform inst =
      (.ok (.ofNat ptr bytes.length), inst.withGuest (g.holding ptr bytes)) := by
  have hg := hs.take? h
  unfold take? at h
  split at h
  · next hlen =>
    simp only [Option.some.injEq, Prod.mk.injEq] at h
    obtain ⟨rfl, rfl⟩ := h
    obtain rfl := List.length_eq_zero_iff.mp hlen
    rfl
  next hlen =>
  have hne : bytes.isEmpty = false := by
    simpa [List.isEmpty_iff_length_eq_zero] using hlen
  have hptr : UInt32.ofNat ptr ≠ 0 := by
    rw [Ne, uint32_ofNat_eq_zero_iff hg.ptr_lt]
    exact Nat.pos_iff_ne_zero.mp (hg.ptr_pos (by omega))
  split at h
  · simp at h
  next hmax =>
  obtain ⟨⟨ptr', heap, memory⟩, ha, he⟩ := Option.map_eq_some_iff.mp h
  simp only [Prod.mk.injEq] at he
  obtain ⟨rfl, rfl⟩ := he
  have hin : (UInt32.ofNat ptr').toNat + bytes.length ≤
      (inst.withGuest { inst.guest with heap := heap, memory := memory }).memorySize := by
    rw [UInt32.toNat_ofNat_of_lt' hg.ptr_lt]
    exact hg.inside
  unfold writeBytes
  have hpos : 0 < bytes.length := by omega
  simp only [hne, Bool.false_eq_true, if_false, perform_bind,
    perform_alloc ht hpos (Nat.le_of_not_lt hmax), ha, if_neg hptr, perform_get,
    if_neg (Nat.not_lt.mpr hin), perform_store hin]
  rw [UInt32.toNat_ofNat_of_lt' hg.ptr_lt]
  rfl

/-- Giving back what has been taken undoes the taking. -/
theorem perform_freeBytes {g g' : Guest} {size ptr : Nat} (hg : Taken g size ptr g')
    (ht : inst.tainted = false) (hheap : inst.guest.heap = g'.heap) :
    (freeBytes (.ofNat ptr size)).perform inst =
      (.ok (), inst.withGuest (inst.guest.withHeap g.heap)) := by
  have hlt := hg.size_lt
  have hlt' : size < 0x100000000 := Nat.lt_trans hlt (by decide)
  unfold freeBytes
  rw [perform_ite, Span.isNull_ofNat hg.ptr_lt hlt']
  by_cases hsize : size = 0
  · rw [if_pos (by simp [hsize])]
    have : inst.guest.withHeap g.heap = inst.guest := by
      rw [← hg.heap_eq hsize, ← hheap]
      rfl
    rw [this]
    rfl
  have hpos : 0 < size := Nat.pos_of_ne_zero hsize
  have hptr : ptr ≠ 0 := Nat.pos_iff_ne_zero.mp (hg.ptr_pos hpos)
  have hptr' : ofWord ptr ≠ 0 := by rwa [Ne, ofWord_eq_zero_iff hg.ptr_lt]
  have hd : inst.guest.dealloc (ofWord ptr) (ofWord size) =
      .ok (inst.guest.withHeap g.heap) := by
    unfold Guest.dealloc
    rw [if_neg (by simp [hptr', not_ofWord_le_zero hpos hlt]), word_ofWord hg.ptr_lt,
      word_ofWord hlt', hheap, hg.restores hpos]
    rfl
  rw [if_neg (by simp [hsize, hptr]), perform_quietly]
  unfold dealloc
  simp only [perform_call ht, Backend.dealloc, Span.ofNat, toInt32_ofNat, hd, Except.map, settle]
  rfl

/-- Nothing can be given back to a tainted instance. -/
theorem perform_freeBytes_of_tainted {σ : Type} [Backend σ] {inst : Instance σ}
    (ht : inst.tainted = true) (s : Span) : (freeBytes s).perform inst = (.ok (), inst) := by
  unfold freeBytes
  rw [perform_ite]
  split
  · rfl
  · rw [perform_quietly]
    unfold dealloc
    rw [perform_call_of_tainted ht]

theorem perform_withBuffer_none (ht : inst.tainted = false) {bytes : List UInt8}
    (h : inst.guest.take? bytes.length = none) (body : Span → Action Guest α) :
    (withBuffer bytes body).perform inst =
      (.error (.error (.allocationFailed bytes.length)), inst) := by
  unfold withBuffer
  rw [perform_bind, perform_writeBytes_none ht h]

/-- What an action on an instance that is not tainted leaves behind: its own rule table,
    and all else as it was, but that the memory may have grown. If the guest has broken
    down, the instance is tainted, and nothing is said of the heap. -/
structure Leaves (inst done : Instance Guest) (rules : RuleTable) (broken : Bool) : Prop where
  id_eq : done.id = inst.id
  poolId_eq : done.poolId = inst.poolId
  name_eq : done.name = inst.name
  tainted_eq : done.tainted = broken
  heap_eq : broken = false → done.guest.heap = inst.guest.heap
  rules_eq : done.guest.rules = rules
  later : inst.guest.memory.Later done.guest.memory

theorem Leaves.refl (ht : inst.tainted = false) : inst.Leaves inst inst.guest.rules false :=
  ⟨rfl, rfl, rfl, ht, fun _ => rfl, rfl, .refl _⟩

theorem Leaves.taint : inst.Leaves inst.taint inst.guest.rules true :=
  ⟨rfl, rfl, rfl, rfl, fun h => by simp at h, rfl, .refl _⟩

/-- Bytes are placed, something is done, and the bytes are given back. -/
theorem perform_withBuffer (hs : inst.guest.Sound) (ht : inst.tainted = false)
    {bytes : List UInt8} {ptr : Nat} {g : Guest}
    (h : inst.guest.take? bytes.length = some (ptr, g)) (body : Span → Action Guest α)
    {result : Except Failure α} {done : Instance Guest} {rules : RuleTable} {broken : Bool}
    (hbody : (body (.ofNat ptr bytes.length)).perform (inst.withGuest (g.holding ptr bytes)) =
      (result, done))
    (hleaves : (inst.withGuest (g.holding ptr bytes)).Leaves done rules broken) :
    ∃ done', (withBuffer bytes body).perform inst = (result, done') ∧
      inst.Leaves done' rules broken := by
  have hg := hs.take? h
  have hlater : inst.guest.memory.Later done.guest.memory :=
    hg.later.trans ((Memory.Later.store ..).trans hleaves.later)
  unfold withBuffer
  rw [perform_bind, perform_writeBytes hs ht h]
  simp only [perform_ensuring, hbody]
  have htaint := hleaves.tainted_eq
  cases broken with
  | true =>
    rw [perform_freeBytes_of_tainted htaint, endWith_ok]
    exact ⟨_, rfl, hleaves.id_eq, hleaves.poolId_eq, hleaves.name_eq, htaint, by simp,
      hleaves.rules_eq, hlater⟩
  | false =>
    rw [perform_freeBytes hg htaint (hleaves.heap_eq rfl), endWith_ok]
    exact ⟨_, rfl, hleaves.id_eq, hleaves.poolId_eq, hleaves.name_eq, htaint, fun _ => rfl,
      hleaves.rules_eq, hlater⟩

end Instance

end PathSieve

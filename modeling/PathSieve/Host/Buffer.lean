/-
  Bytes on their way into a guest and out of it.

  Bytes for a guest lie in memory that the guest's own allocator has handed out, and
  have to be given back exactly once. `withBuffer` ties that to an action: whatever end
  the action comes to, the memory is given back after it. What the guest says about
  places is checked against the size of its memory before anything is touched.
-/
import PathSieve.Host.Instance

namespace PathSieve

/-- A range of a guest's memory. -/
structure Span where
  ptr : UInt32
  len : UInt32
  deriving DecidableEq, Repr

namespace Span

/-- Is there nothing in the range, because it has no place or no length? -/
def isNull (s : Span) : Bool :=
  s.ptr = 0 || s.len = 0

end Span

namespace Instance

variable {σ α : Type} [Backend σ]

/-- Give the memory of a range back. Nothing is done for a null range, and a failure is
    dropped: there is nobody who could do better. -/
def freeBytes (s : Span) : Action σ Unit :=
  if s.isNull then pure () else (dealloc s.ptr s.len).quietly

/-- Place bytes in fresh memory. No bytes take no memory. When the guest names a place
    that is not inside, the memory is given back and the allocation has failed. -/
def writeBytes (bytes : List UInt8) : Action σ Span := do
  if bytes.isEmpty then pure ⟨0, 0⟩
  else
    let ptr ← alloc bytes.length
    if ptr = 0 then Action.fail (.allocationFailed bytes.length)
    else
      let span : Span := ⟨ptr, UInt32.ofNat bytes.length⟩
      let inst ← get
      if inst.memorySize < ptr.toNat + bytes.length then
        freeBytes span
        Action.fail (.allocationFailed bytes.length)
      else
        store ptr.toNat bytes
        pure span

/-- The bytes of a range; a null range has none. -/
def readBytes (s : Span) : Action σ (List UInt8) := do
  if s.isNull then pure []
  else
    let inst ← get
    if inst.memorySize < s.ptr.toNat + s.len.toNat then
      Action.fail (.outOfRange s.ptr.toNat s.len.toNat inst.memorySize)
    else load s.ptr.toNat s.len.toNat

/-- Do something while bytes lie in the guest's memory. -/
def withBuffer (bytes : List UInt8) (body : Span → Action σ α) : Action σ α := do
  let span ← writeBytes bytes
  (body span).ensuring (freeBytes span)

end Instance

end PathSieve

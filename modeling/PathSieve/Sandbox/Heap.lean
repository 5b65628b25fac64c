/-
  The allocator of a guest: first fit over the free blocks, else at the top.

  The heap covers the places from `base` to `top`. Each of them belongs to a live block
  or to a free block; both lists are kept in the order of their offsets, so that equal
  contents are equal heaps. A freed block melts into the free blocks on either side,
  and into the space above when it ends at the top.

  Offset 0 is never handed out, so it can stand for failure. Sizes are rounded up to
  whole units of eight bytes, and nothing may reach beyond the last 32-bit place.
-/
import PathSieve.Sandbox.Memory

namespace PathSieve

/-- A stretch of memory. -/
structure Block where
  offset : Nat
  size : Nat
  deriving DecidableEq, Repr

namespace Block

/-- The first place after a block. -/
def stop (b : Block) : Nat :=
  b.offset + b.size

/-- Put a block into a list that is in the order of offsets. -/
def insert (b : Block) : List Block → List Block
  | [] => [b]
  | c :: cs => if b.offset < c.offset then b :: c :: cs else c :: insert b cs

/-- The block at an offset. -/
def find? (offset : Nat) (bs : List Block) : Option Block :=
  List.find? (fun b => b.offset = offset) bs

/-- The blocks but for those at an offset. -/
def erase (offset : Nat) (bs : List Block) : List Block :=
  bs.filter fun b => b.offset ≠ offset

/-- Cut `size` bytes off the first block that has as many: the offset they begin at, and
    the blocks that are left. -/
def carve? (size : Nat) : List Block → Option (Nat × List Block)
  | [] => none
  | b :: bs =>
    if size ≤ b.size then
      some (b.offset, if size < b.size then ⟨b.offset + size, b.size - size⟩ :: bs else bs)
    else (carve? size bs).map fun r => (r.1, b :: r.2)

end Block

/-- The state of an allocator. -/
structure Heap where
  /-- The end of the space that blocks take up. -/
  top : Nat
  /-- The free blocks below the top, in order. -/
  free : List Block
  /-- The blocks handed out and not freed, in order. -/
  live : List Block
  deriving DecidableEq, Repr

namespace Heap

/-- The first offset that is handed out. -/
def base : Nat := 16

/-- The unit of sizes. -/
def unit : Nat := 8

/-- The last place that a 32-bit pointer can name. -/
def lastPlace : Nat := 0xffffffff

/-- The heap of a fresh guest. -/
def empty : Heap :=
  ⟨base, [], []⟩

/-- A size rounded up to whole units, unless that passes 32 bits. -/
def roundUp? (size : Nat) : Option Nat :=
  if size + (unit - 1) ≤ lastPlace then some ((size + (unit - 1)) / unit * unit) else none

/-- The memory grown, if need be, to cover all places below `stop`. -/
def cover? (m : Memory) (stop : Nat) : Option Memory :=
  if stop ≤ m.size then some m
  else m.grow? ((stop - m.size + (pageSize - 1)) / pageSize)

/-- Hand out `size` bytes: their offset, and the heap and the memory after it. -/
def alloc? (h : Heap) (m : Memory) (size : Nat) : Option (Nat × Heap × Memory) :=
  if size = 0 then none
  else
    match roundUp? size with
    | none => none
    | some size =>
      match Block.carve? size h.free with
      | some (ptr, free) =>
        some (ptr, { h with free := free, live := Block.insert ⟨ptr, size⟩ h.live }, m)
      | none =>
        let stop := h.top + size
        if lastPlace < stop then none
        else
          match cover? m stop with
          | none => none
          | some m =>
            some (h.top, { h with top := stop, live := Block.insert ⟨h.top, size⟩ h.live }, m)

/-- The block with the free block that begins where it ends, and the other free blocks. -/
def mergeNext (b : Block) (free : List Block) : Block × List Block :=
  match Block.find? b.stop free with
  | some next => (⟨b.offset, b.size + next.size⟩, Block.erase next.offset free)
  | none => (b, free)

/-- The block with the free block that ends where it begins, and the other free blocks. -/
def mergePrevious (b : Block) (free : List Block) : Block × List Block :=
  match free.find? fun p => p.stop = b.offset with
  | some previous =>
    (⟨previous.offset, previous.size + b.size⟩, Block.erase previous.offset free)
  | none => (b, free)

/-- Give a block back: join it with its free neighbours, and lower the top if it ends
    there. -/
def release (h : Heap) (b : Block) : Heap :=
  let (b, free) := mergeNext b h.free
  let (b, free) := mergePrevious b free
  if b.stop = h.top then { h with top := b.offset, free := free }
  else { h with free := Block.insert b free }

/-- Take back the block at a pointer, whose size has to be given as it was asked for. -/
def dealloc (h : Heap) (ptr size : Nat) : Except Trap Heap :=
  match roundUp? size with
  | none => .error .freeOverflow
  | some rounded =>
    match Block.find? ptr h.live with
    | none => .error (.freeUnallocated ptr)
    | some b =>
      if b.size = rounded then
        .ok ({ h with live := Block.erase ptr h.live }.release b)
      else .error (.freeMismatch ptr b.size rounded)

/-- The number of blocks handed out and not freed. -/
def liveCount (h : Heap) : Nat :=
  h.live.length

end Heap

end PathSieve

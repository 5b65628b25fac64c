/-
  What a host asks of a guest.

  A backend is a type of guest states with six entry points over 32-bit integers and a
  memory that host and guest share. A call ends in one of three ways: it returns, it
  traps, or it panics, which means that it unwinds through the host as well. Whatever
  happens, the guest goes on in the state that comes with the reply.

  A module makes guests; making one may be refused, and may change the module.
-/
import PathSieve.Config.Basic

namespace PathSieve

/-- How a call into a guest ends. -/
inductive Reply (α : Type) where
  | returned (a : α)
  | trapped (trap : Trap)
  | panicked (text : String)
  deriving Repr

namespace Reply

/-- The reply of a call that does not panic. -/
def ofExcept {α : Type} : Except Trap α → Reply α
  | .ok a => .returned a
  | .error trap => .trapped trap

end Reply

/-- States of a guest, with its entry points and its memory. -/
class Backend (σ : Type) where
  /-- Hand out memory; zero says that there is none. -/
  alloc : σ → Int32 → Reply Int32 × σ
  /-- Take memory back, by pointer and size. -/
  dealloc : σ → Int32 → Int32 → Reply Unit × σ
  /-- Compile the rule text in a range, and give its handle or a negative code. -/
  createMatcher : σ → Int32 → Int32 → Reply Int32 × σ
  /-- Forget the rule set under a handle. -/
  destroyMatcher : σ → Int32 → Reply Unit × σ
  /-- Decide the path in a range, as a directory if the last number is not zero. -/
  isMatch : σ → Int32 → Int32 → Int32 → Int32 → Reply Int32 × σ
  /-- Filter the path list in a range: the count of kept paths, whose text the two words
      at the last pointer describe, or a negative code. -/
  batchFilter : σ → Int32 → Int32 → Int32 → Int32 → Reply Int32 × σ
  /-- The size of the memory in bytes. -/
  memorySize : σ → Nat
  /-- The byte at a place of the memory. -/
  byteAt : σ → Nat → UInt8
  /-- Write bytes into the memory from a place on. -/
  store : σ → Nat → List UInt8 → σ

/-- A source of guests of type `σ`. -/
class Module (μ : Type) (σ : outParam Type) where
  /-- The name of the module. -/
  name : μ → String
  /-- Make a guest of a given name, or refuse to. -/
  instantiate : μ → String → Except Error σ × μ

/-- A module that is built from a configuration. -/
class Compiled (μ : Type) where
  compile : Config → Except Error μ

/-- A guest of one of two kinds. -/
instance instBackendSum {σ τ : Type} [Backend σ] [Backend τ] : Backend (σ ⊕ τ) where
  alloc
    | .inl s, n => (Backend.alloc s n).map id .inl
    | .inr s, n => (Backend.alloc s n).map id .inr
  dealloc
    | .inl s, p, n => (Backend.dealloc s p n).map id .inl
    | .inr s, p, n => (Backend.dealloc s p n).map id .inr
  createMatcher
    | .inl s, p, n => (Backend.createMatcher s p n).map id .inl
    | .inr s, p, n => (Backend.createMatcher s p n).map id .inr
  destroyMatcher
    | .inl s, h => (Backend.destroyMatcher s h).map id .inl
    | .inr s, h => (Backend.destroyMatcher s h).map id .inr
  isMatch
    | .inl s, h, p, n, d => (Backend.isMatch s h p n d).map id .inl
    | .inr s, h, p, n, d => (Backend.isMatch s h p n d).map id .inr
  batchFilter
    | .inl s, h, p, n, i => (Backend.batchFilter s h p n i).map id .inl
    | .inr s, h, p, n, i => (Backend.batchFilter s h p n i).map id .inr
  memorySize
    | .inl s => Backend.memorySize s
    | .inr s => Backend.memorySize s
  byteAt
    | .inl s, i => Backend.byteAt s i
    | .inr s, i => Backend.byteAt s i
  store
    | .inl s, i, bs => .inl (Backend.store s i bs)
    | .inr s, i, bs => .inr (Backend.store s i bs)

/-- A module of one of two kinds. -/
instance instModuleSum {μ ν σ τ : Type} [Module μ σ] [Module ν τ] : Module (μ ⊕ ν) (σ ⊕ τ) where
  name
    | .inl m => Module.name m
    | .inr m => Module.name m
  instantiate
    | .inl m, name => (Module.instantiate m name).map (Except.map .inl) .inl
    | .inr m, name => (Module.instantiate m name).map (Except.map .inr) .inr

/-- Of two kinds of modules, the first is the one that is built. -/
instance instCompiledSum {μ ν : Type} [Compiled μ] : Compiled (μ ⊕ ν) where
  compile c := (Compiled.compile c).map .inl

end PathSieve

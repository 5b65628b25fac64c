/-
  Guests that carry something on top.

  A map from guests to guests is a reflection if every call ends on a guest as it does on
  its image, and leaves the image of what it leaves there. An action of the host then ends
  on an instance as it does on the image, and leads to the image (`Follows`): what the guest
  carries on top has no part in what the host does. Outside the memory the two may show
  what they like, as nothing there is ever read.
-/
import PathSieve.Proofs.Host.Action

namespace PathSieve

variable {τ σ α β : Type}

/-- Does every call end on a guest as on its image? -/
structure Backend.Reflects [Backend τ] [Backend σ] (f : τ → σ) : Prop where
  alloc : ∀ g size, Backend.alloc (f g) size = (Backend.alloc g size).map id f
  dealloc : ∀ g ptr size, Backend.dealloc (f g) ptr size = (Backend.dealloc g ptr size).map id f
  createMatcher : ∀ g ptr len,
    Backend.createMatcher (f g) ptr len = (Backend.createMatcher g ptr len).map id f
  destroyMatcher : ∀ g handle,
    Backend.destroyMatcher (f g) handle = (Backend.destroyMatcher g handle).map id f
  isMatch : ∀ g handle ptr len isDir,
    Backend.isMatch (f g) handle ptr len isDir =
      (Backend.isMatch g handle ptr len isDir).map id f
  batchFilter : ∀ g handle ptr len info,
    Backend.batchFilter (f g) handle ptr len info =
      (Backend.batchFilter g handle ptr len info).map id f
  memorySize : ∀ g, Backend.memorySize (f g) = Backend.memorySize g
  byteAt : ∀ g i, i < Backend.memorySize g → Backend.byteAt (f g) i = Backend.byteAt g i
  store : ∀ g start bytes, Backend.store (f g) start bytes = f (Backend.store g start bytes)

namespace Instance

open PathSieve.Action

/-- The instance with the image of its guest. -/
def mapGuest (f : τ → σ) (inst : Instance τ) : Instance σ :=
  ⟨inst.id, inst.poolId, inst.name, f inst.guest, inst.tainted⟩

/-- Does an action end on every instance as another one does on the image? -/
def Follows (f : τ → σ) (a : Action τ α) (b : Action σ α) : Prop :=
  ∀ inst, b.perform (inst.mapGuest f) = ((a.perform inst).1, (a.perform inst).2.mapGuest f)

variable {f : τ → σ}

/-! ## Actions put together -/

theorem follows_pure (x : α) : Follows f (pure x) (pure x) := fun _ => rfl

theorem follows_fail (e : Error) : Follows f (fail e : Action _ α) (fail e) := fun _ => rfl

theorem follows_unwind (text : String) :
    Follows f (unwind text : Action _ α) (unwind text) := fun _ => rfl

theorem follows_set (inst : Instance τ) :
    Follows f (set inst : Action τ PUnit) (set (inst.mapGuest f)) := fun _ => rfl

theorem follows_bind {a : Action τ α} {b : Action σ α} {k : α → Action τ β}
    {k' : α → Action σ β} (ha : Follows f a b) (hk : ∀ x, Follows f (k x) (k' x)) :
    Follows f (a >>= k) (b >>= k') := by
  intro inst
  rw [perform_bind, perform_bind, ha inst]
  rcases a.perform inst with ⟨_ | x, next⟩
  · rfl
  · exact hk x next

theorem follows_get_bind {k : Instance τ → Action τ α} {k' : Instance σ → Action σ α}
    (h : ∀ inst, Follows f (k inst) (k' (inst.mapGuest f))) :
    Follows f (get >>= k) (get >>= k') := by
  intro inst
  rw [perform_bind, perform_bind, perform_get, perform_get]
  exact h inst inst

theorem follows_ite {c : Prop} [Decidable c] {a a' : Action τ α} {b b' : Action σ α}
    (ha : Follows f a b) (ha' : Follows f a' b') :
    Follows f (if c then a else a') (if c then b else b') := by
  split
  · exact ha
  · exact ha'

theorem follows_ensuring {a : Action τ α} {b : Action σ α} {cleanup : Action τ Unit}
    {cleanup' : Action σ Unit} (ha : Follows f a b) (hc : Follows f cleanup cleanup') :
    Follows f (a.ensuring cleanup) (b.ensuring cleanup') := by
  intro inst
  rw [perform_ensuring, perform_ensuring, ha inst, hc]

theorem follows_quietly {a : Action τ Unit} {b : Action σ Unit} (ha : Follows f a b) :
    Follows f a.quietly b.quietly := by
  intro inst
  rw [perform_quietly, perform_quietly, ha inst]
  rcases a.perform inst with ⟨(_ | _) | _, next⟩ <;> rfl

theorem follows_call {entry : EntryPoint} {c : τ → Reply α × τ} {c' : σ → Reply α × σ}
    (h : ∀ g, c' (f g) = ((c g).1, f (c g).2)) : Follows f (call entry c) (call entry c') := by
  intro inst
  cases ht : inst.tainted with
  | true =>
    rw [perform_call_of_tainted ht]
    exact perform_call_of_tainted (show (inst.mapGuest f).tainted = true from ht) entry c'
  | false =>
    rw [perform_call ht, perform_call (show (inst.mapGuest f).tainted = false from ht)]
    unfold mapGuest
    rw [h]
    rcases c inst.guest with ⟨_ | _ | _, g⟩ <;> rfl

theorem follows_give [Backend τ] [Backend σ] (result : Except Error α) :
    Follows f (give result) (give result) := by
  intro inst
  rw [perform_give, perform_give]

theorem follows_rawOf (h : Handle) : Follows f (rawOf h) (rawOf h) :=
  follows_get_bind fun _ => follows_ite (follows_pure _) (follows_fail _)

theorem follows_spanOf (bytes : List UInt8) : Follows f (spanOf bytes) (spanOf bytes) := by
  unfold spanOf
  split
  · exact follows_pure _
  · exact follows_unwind _

end Instance

/-! ## What the host does -/

namespace Backend.Reflects

open PathSieve.Action Instance

variable [Backend τ] [Backend σ] {f : τ → σ}

theorem follows_alloc (hf : Reflects f) (size : Nat) :
    Follows f (Instance.alloc size) (Instance.alloc size) :=
  follows_ite (follows_fail _)
    (follows_bind (follows_call fun g => hf.alloc g _) fun _ => follows_pure _)

theorem follows_dealloc (hf : Reflects f) (ptr len : UInt32) :
    Follows f (Instance.dealloc ptr len) (Instance.dealloc ptr len) :=
  follows_call fun g => hf.dealloc g _ _

theorem follows_createMatcher (hf : Reflects f) (ptr len : UInt32) :
    Follows f (Instance.createMatcher ptr len) (Instance.createMatcher ptr len) :=
  follows_call fun g => hf.createMatcher g _ _

theorem follows_destroyMatcher (hf : Reflects f) (h : Handle) :
    Follows f (Instance.destroyMatcher h) (Instance.destroyMatcher h) :=
  follows_bind (follows_rawOf h) fun _ => follows_call fun g => hf.destroyMatcher g _

theorem follows_isMatch (hf : Reflects f) (h : Handle) (ptr len : UInt32) (isDir : Bool) :
    Follows f (Instance.isMatch h ptr len isDir) (Instance.isMatch h ptr len isDir) :=
  follows_bind (follows_rawOf h) fun _ => follows_call fun g => hf.isMatch g _ _ _ _

theorem follows_batchFilter (hf : Reflects f) (h : Handle) (ptr len info : UInt32) :
    Follows f (Instance.batchFilter h ptr len info) (Instance.batchFilter h ptr len info) :=
  follows_bind (follows_rawOf h) fun _ => follows_call fun g => hf.batchFilter g _ _ _ _

theorem memorySize_mapGuest (hf : Reflects f) (inst : Instance τ) :
    (inst.mapGuest f).memorySize = inst.memorySize :=
  hf.memorySize inst.guest

theorem follows_store (hf : Reflects f) (start : Nat) (bytes : List UInt8) :
    Follows f (Instance.store start bytes) (Instance.store start bytes) := by
  refine follows_get_bind fun inst => ?_
  rw [hf.memorySize_mapGuest inst]
  refine follows_ite (follows_unwind _) ?_
  have hstore : ({ inst.mapGuest f with
      guest := Backend.store (inst.mapGuest f).guest start bytes } : Instance σ) =
        ({ inst with guest := Backend.store inst.guest start bytes } : Instance τ).mapGuest f := by
    unfold mapGuest
    rw [hf.store]
  rw [hstore]
  exact follows_set _

/-- What is loaded lies inside the memory. -/
theorem follows_load (hf : Reflects f) (start len : Nat) :
    Follows f (Instance.load start len) (Instance.load start len) := by
  refine follows_get_bind fun inst => ?_
  rw [hf.memorySize_mapGuest inst]
  by_cases h : inst.memorySize < start + len
  · rw [if_pos h, if_pos h]
    exact follows_unwind _
  · have hbytes : (List.range' start len).map (Backend.byteAt (inst.mapGuest f).guest) =
        (List.range' start len).map (Backend.byteAt inst.guest) := by
      refine List.map_congr_left fun i hi => hf.byteAt inst.guest i ?_
      rw [List.mem_range'_1] at hi
      have hin : start + len ≤ Backend.memorySize inst.guest := Nat.le_of_not_lt h
      omega
    rw [if_neg h, if_neg h, hbytes]
    exact follows_pure _

theorem follows_freeBytes (hf : Reflects f) (s : Span) :
    Follows f (freeBytes s) (freeBytes s) :=
  follows_ite (follows_pure ()) (follows_quietly (hf.follows_dealloc _ _))

theorem follows_writeBytes (hf : Reflects f) (bytes : List UInt8) :
    Follows f (writeBytes bytes) (writeBytes bytes) := by
  refine follows_ite (follows_pure _) (follows_bind (hf.follows_alloc _) fun ptr => ?_)
  refine follows_ite (follows_fail _) (follows_get_bind fun inst => ?_)
  rw [hf.memorySize_mapGuest inst]
  refine follows_ite (follows_bind (hf.follows_freeBytes _) fun _ => follows_fail _) ?_
  exact follows_bind (hf.follows_store _ _) fun _ => follows_pure _

theorem follows_readBytes (hf : Reflects f) (s : Span) :
    Follows f (readBytes s) (readBytes s) := by
  refine follows_ite (follows_pure _) (follows_get_bind fun inst => ?_)
  rw [hf.memorySize_mapGuest inst]
  exact follows_ite (follows_fail _) (hf.follows_load _ _)

theorem follows_withBuffer (hf : Reflects f) (bytes : List UInt8)
    {body : Span → Action τ α} {body' : Span → Action σ α}
    (hbody : ∀ s, Follows f (body s) (body' s)) :
    Follows f (withBuffer bytes body) (withBuffer bytes body') :=
  follows_bind (hf.follows_writeBytes bytes) fun s =>
    follows_ensuring (hbody s) (hf.follows_freeBytes s)

theorem follows_compile (hf : Reflects f) (rules : String) :
    Follows f (compile rules) (compile rules) :=
  follows_bind (hf.follows_withBuffer _ fun _ => hf.follows_createMatcher _ _) fun _ =>
    follows_get_bind fun _ => follows_give _

theorem follows_ask (hf : Reflects f) (h : Handle) (path : List UInt8) (isDir : Bool) :
    Follows f (ask h path isDir) (ask h path isDir) :=
  follows_bind (hf.follows_withBuffer _ fun _ => hf.follows_isMatch _ _ _ _) fun _ =>
    follows_give _

theorem follows_fetchResult (hf : Reflects f) (count : Nat) (descriptor : Span) :
    Follows f (fetchResult count descriptor) (fetchResult count descriptor) := by
  refine follows_bind (hf.follows_readBytes _) fun _ =>
    follows_bind (follows_spanOf _) fun s => ?_
  refine follows_ite (follows_fail _) (follows_bind
    (follows_ensuring (hf.follows_readBytes s) (hf.follows_freeBytes s)) fun bytes => ?_)
  split
  · exact follows_pure _
  · exact follows_fail _

theorem follows_filter (hf : Reflects f) (h : Handle) (paths : List String) :
    Follows f (filter h paths) (filter h paths) := by
  refine follows_ite (follows_pure _) (hf.follows_withBuffer _ fun text =>
    hf.follows_withBuffer _ fun info => ?_)
  refine follows_bind (hf.follows_batchFilter _ _ _ _) fun _ => ?_
  exact follows_bind (follows_give _) fun _ =>
    follows_ite (follows_pure _) (hf.follows_fetchResult _ _)

theorem follows_withCompiled (hf : Reflects f) (rules : String)
    {body : Handle → Action τ α} {body' : Handle → Action σ α}
    (hbody : ∀ h, Follows f (body h) (body' h)) :
    Follows f (withCompiled rules body) (withCompiled rules body') :=
  follows_bind (hf.follows_compile rules) fun h =>
    follows_ensuring (hbody h) (follows_quietly (hf.follows_destroyMatcher h))

end Backend.Reflects

end PathSieve

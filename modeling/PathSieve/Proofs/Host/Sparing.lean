/-
  Bytes that a host has placed stay as they are.

  Whoever has placed bytes in a guest finds them again as long as nobody takes their block
  back, writes over them or has a batch filter describe its result on them. A run of touches,
  of further writes and of buffers within buffers that keeps to that is sparing (`Sparing`).
  The buffers need no such promise: their memory is their own when it is taken and when it
  is given back.
-/
import PathSieve.Proofs.Host.Agreement
import PathSieve.Proofs.Host.Loaded
import PathSieve.Proofs.Sandbox.Lodged

namespace PathSieve

namespace Span

/-- Have the range and another one no place in common? -/
def Apart (s : Span) (start len : Nat) : Prop :=
  Memory.Apart s.ptr.toNat s.len.toNat start len

end Span

namespace Instance

open Guest PathSieve.Action

/-- Does a touch leave a range alone? The block at its place is not taken back, and neither a
    write nor a descriptor falls on the range. -/
def Spares (inst : Instance Guest) (s : Span) : Touch → Prop
  | .dealloc ptr len =>
    ptr = s.ptr → (inst.touch (.dealloc ptr len)).guest.LiveAt s.ptr.toNat
  | .batchFilter _ _ _ info => s.Apart info.toNat descriptorSize
  | .store start bytes => s.Apart start bytes.length
  | _ => True

/-- Runs that leave a range alone. -/
inductive Sparing (s : Span) : Instance Guest → Instance Guest → Prop where
  | done (inst : Instance Guest) : Sparing s inst inst
  | touch {inst later : Instance Guest} (t : Touch) (h : inst.Spares s t)
    (rest : Sparing s (inst.touch t) later) : Sparing s inst later
  | write {inst later : Instance Guest} (bytes : List UInt8)
    (rest : Sparing s ((writeBytes bytes).perform inst).2 later) : Sparing s inst later
  /-- A buffer is taken, something is done while it is there, and it is given back. -/
  | buffer {inst placed used later : Instance Guest} (bytes : List UInt8) {own : Span}
    (hplaced : (writeBytes bytes).perform inst = (.ok own, placed))
    (body : Sparing s placed used)
    (rest : Sparing s ((freeBytes own).perform used).2 later) : Sparing s inst later

/-- The guest is sound, and bytes are lodged in a range of it. -/
structure Carries (s : Span) (bytes : List UInt8) (g : Guest) : Prop where
  sound : g.Sound
  lodged : g.Lodged s.ptr.toNat bytes
  length_eq : bytes.length = s.len.toNat

namespace Carries

variable {inst later : Instance Guest} {s : Span} {bytes : List UInt8}

/-- The range is the one at which the bytes are held. -/
theorem span_eq {g : Guest} (h : Carries s bytes g) : s = .ofNat s.ptr.toNat bytes.length := by
  rw [h.length_eq, Span.ofNat, UInt32.ofNat_toNat, UInt32.ofNat_toNat]

/-- Memory is taken back, but not the block of the bytes. -/
theorem dealloc (h : Carries s bytes inst.guest) {ptr len : UInt32}
    (hspare : inst.Spares s (.dealloc ptr len)) :
    Carries s bytes (inst.touch (.dealloc ptr len)).guest := by
  refine ⟨invariant_sound inst (.dealloc ptr len) h.sound, ?_, h.length_eq⟩
  have hlive : ptr = s.ptr →
      ((Instance.dealloc ptr len).perform inst).2.guest.LiveAt s.ptr.toNat := hspare
  show ((Instance.dealloc ptr len).perform inst).2.guest.Lodged s.ptr.toNat bytes
  unfold Instance.dealloc at hlive ⊢
  cases ht : inst.tainted with
  | true =>
    rw [perform_call_of_tainted ht]
    exact h.lodged
  | false =>
    rw [perform_call ht] at hlive ⊢
    cases hd : inst.guest.dealloc ptr.toInt32 len.toInt32 with
    | error trap =>
      simp only [Backend.dealloc, hd, Except.map, settle]
      exact h.lodged
    | ok g =>
      simp only [Backend.dealloc, hd, Except.map, settle] at hlive ⊢
      exact h.lodged.dealloc hd fun hword => hlive (UInt32.toNat_inj.mp hword)

/-- Bytes are written elsewhere. -/
theorem store (h : Carries s bytes inst.guest) {start : Nat} {new : List UInt8}
    (hapart : Memory.Apart s.ptr.toNat bytes.length start new.length) :
    Carries s bytes (inst.touch (.store start new)).guest := by
  refine ⟨invariant_sound inst (.store start new) h.sound, ?_, h.length_eq⟩
  show ((Instance.store start new).perform inst).2.guest.Lodged s.ptr.toNat bytes
  by_cases hin : start + new.length ≤ inst.memorySize
  · rw [perform_store hin]
    exact h.lodged.store hapart
  · rw [perform_store_of_lt (Nat.lt_of_not_le hin)]
    exact h.lodged

/-- A touch that spares the range keeps the bytes. -/
theorem touch (h : Carries s bytes inst.guest) (t : Touch) (hspare : inst.Spares s t) :
    Carries s bytes (inst.touch t).guest := by
  have keep : ∀ {g : Guest}, Carries s bytes g → ∀ {g' : Guest}, g'.Sound →
      g'.Lodged s.ptr.toNat bytes → Carries s bytes g' :=
    fun h _ hsound hlodged => ⟨hsound, hlodged, h.length_eq⟩
  cases t with
  | alloc size =>
    have hkeeps : Keeps (fun i => Carries s bytes i.guest) (Instance.alloc size) :=
      keeps_ite (keeps_fail _) (keeps_bind (keeps_call .alloc fun g hg =>
        keep hg (hg.sound.alloc _) (hg.lodged.alloc hg.sound _)) fun _ => keeps_pure _)
    exact hkeeps inst h
  | dealloc ptr len => exact h.dealloc hspare
  | createMatcher ptr len =>
    refine keeps_call .createMatcher (fun g hg => ?_) inst h
    cases hc : g.createMatcher ptr.toInt32 len.toInt32 with
    | error trap => simpa [Backend.createMatcher, hc, settle] using hg
    | ok r =>
      simpa [Backend.createMatcher, hc, settle] using
        keep hg (hg.sound.createMatcher hc) (hg.lodged.createMatcher hc)
  | destroyMatcher handle =>
    have hkeeps : Keeps (fun i => Carries s bytes i.guest) (Instance.destroyMatcher handle) :=
      keeps_bind (keeps_rawOf handle) fun raw => keeps_call .destroyMatcher fun g hg =>
        keep hg (hg.sound.destroyMatcher raw) (hg.lodged.destroyMatcher raw)
    exact hkeeps inst h
  | isMatch handle ptr len isDir =>
    exact keeps_bind (keeps_rawOf handle) (fun raw => keeps_call .isMatch fun g hg => hg) inst h
  | batchFilter handle ptr len info =>
    have hapart : Memory.Apart s.ptr.toNat bytes.length (word info.toInt32) descriptorSize := by
      rw [h.length_eq]
      exact hspare
    have hkeeps : Keeps (fun i => Carries s bytes i.guest)
        (Instance.batchFilter handle ptr len info) :=
      keeps_bind (keeps_rawOf handle) fun raw => keeps_call .batchFilter fun g hg =>
        keep hg (hg.sound.batchFilter raw _ _ _) (hg.lodged.batchFilter hg.sound hapart)
    exact hkeeps inst h
  | store start new =>
    refine h.store ?_
    rw [h.length_eq]
    exact hspare
  | taint => exact h

/-- A range that is given back does not begin where the bytes are. -/
theorem free (h : Carries s bytes inst.guest) {own : Span}
    (hown : own.isNull = true ∨ own.ptr ≠ s.ptr) :
    Carries s bytes ((freeBytes own).perform inst).2.guest := by
  cases hnull : own.isNull with
  | true =>
    unfold freeBytes
    rw [perform_ite, if_pos hnull]
    exact h
  | false =>
    have hne : own.ptr ≠ s.ptr := hown.resolve_left (by rw [hnull]; decide)
    have htouch : Carries s bytes ((Instance.dealloc own.ptr own.len).perform inst).2.guest :=
      h.touch (.dealloc own.ptr own.len) fun heq => absurd heq hne
    unfold freeBytes
    rw [perform_ite, if_neg (by rw [hnull]; decide), perform_quietly]
    rcases hd : (Instance.dealloc own.ptr own.len).perform inst with ⟨(_ | _) | _, next⟩ <;>
      rw [hd] at htouch <;> exact htouch

end Carries

/-- Entering a guest leaves it as it was, or as the call leaves it. -/
theorem guest_perform_call {σ α : Type} (entry : EntryPoint) (f : σ → Reply α × σ)
    (inst : Instance σ) :
    ((call entry f).perform inst).2.guest = inst.guest ∨
      ((call entry f).perform inst).2.guest = (f inst.guest).2 := by
  cases ht : inst.tainted with
  | true =>
    rw [perform_call_of_tainted ht]
    exact Or.inl rfl
  | false =>
    rw [perform_call ht]
    rcases f inst.guest with ⟨_ | _ | _, g⟩ <;> exact Or.inr rfl

theorem guest_touch_batchFilter (inst : Instance Guest) (h : Handle) (ptr len info : UInt32) :
    (inst.touch (.batchFilter h ptr len info)).guest = inst.guest ∨
      (inst.touch (.batchFilter h ptr len info)).guest =
        (inst.guest.batchFilter h.raw ptr.toInt32 len.toInt32 info.toInt32).2 := by
  show ((Instance.batchFilter h ptr len info).perform inst).2.guest = _ ∨
    ((Instance.batchFilter h ptr len info).perform inst).2.guest = _
  unfold Instance.batchFilter
  rw [perform_bind, perform_rawOf]
  by_cases hown : h.instanceId = inst.id
  · rw [if_pos hown]
    exact guest_perform_call .batchFilter
      (fun g => Backend.batchFilter g h.raw ptr.toInt32 len.toInt32 info.toInt32) inst
  · rw [if_neg hown]
    exact Or.inl rfl

/-! ## Placing bytes -/

/-- What becomes of an instance into which bytes are written: nothing, or memory is taken for
    them and they lie in it. -/
theorem writeBytes_cases {inst : Instance Guest} (hs : inst.guest.Sound) (bytes : List UInt8) :
    (∃ e, (writeBytes bytes).perform inst = (.error e, inst)) ∨
      ∃ ptr g, Taken inst.guest bytes.length ptr g ∧
        inst.guest.heap.live ⊆ g.heap.live ∧
        (writeBytes bytes).perform inst =
          (.ok (.ofNat ptr bytes.length), inst.withGuest (g.holding ptr bytes)) := by
  by_cases hne : bytes = []
  · subst hne
    exact Or.inr ⟨0, inst.guest, hs.take? rfl, List.Subset.refl _, rfl⟩
  cases ht : inst.tainted with
  | true => exact Or.inl ⟨_, perform_writeBytes_tainted ht hne⟩
  | false =>
    cases htake : inst.guest.take? bytes.length with
    | none => exact Or.inl ⟨_, perform_writeBytes_none ht htake⟩
    | some r =>
      exact Or.inr ⟨r.1, r.2, hs.take? htake, hs.live_subset_take? htake,
        perform_writeBytes hs ht htake⟩

namespace Carries

variable {inst later : Instance Guest} {s : Span} {bytes : List UInt8}

/-- What has been written is carried. -/
theorem of_writeBytes {placed : Instance Guest} (hs : inst.guest.Sound)
    (h : (writeBytes bytes).perform inst = (.ok s, placed)) : Carries s bytes placed.guest := by
  rcases writeBytes_cases hs bytes with ⟨e, he⟩ | ⟨ptr, g, htaken, -, hok⟩
  · rw [he] at h
    simp at h
  · rw [hok] at h
    simp only [Prod.mk.injEq, Except.ok.injEq] at h
    obtain ⟨rfl, rfl⟩ := h
    have hlt := Nat.lt_trans htaken.size_lt (show 0x80000000 < 0x100000000 by decide)
    refine ⟨htaken.sound.store ptr bytes, ?_, (UInt32.toNat_ofNat_of_lt' hlt).symm⟩
    show (g.holding ptr bytes).Lodged (UInt32.ofNat ptr).toNat bytes
    rw [UInt32.toNat_ofNat_of_lt' htaken.ptr_lt]
    exact htaken.lodged

/-- Writing more bytes keeps those that are there, and puts the new ones, if there are any,
    at another place. -/
theorem write (h : Carries s bytes inst.guest) (hpos : 0 < bytes.length) (new : List UInt8) :
    Carries s bytes ((writeBytes new).perform inst).2.guest ∧
      ∀ own placed, (writeBytes new).perform inst = (.ok own, placed) →
        own.isNull = true ∨ own.ptr ≠ s.ptr := by
  rcases writeBytes_cases h.sound new with ⟨e, he⟩ | ⟨ptr, g, htaken, hsub, hok⟩
  · rw [he]
    exact ⟨h, fun own placed hplaced => by simp at hplaced⟩
  obtain ⟨b, hb, hoff, hlen⟩ := h.lodged.live hpos
  have hapart := htaken.apart b hb
  simp only [Block.stop] at hapart
  rw [hok]
  refine ⟨⟨htaken.sound.store ptr new, ?_, h.length_eq⟩, fun own placed hplaced => ?_⟩
  · have hlodged : g.Lodged s.ptr.toNat bytes :=
      h.lodged.frame (fun b hb _ => hsub hb) htaken.later.size_le fun i _ _ => by
        rw [Memory.byteAt, Memory.byteAt, htaken.cells_eq]
    exact hlodged.store (Memory.apart_of_le (by omega))
  · simp only [Prod.mk.injEq, Except.ok.injEq] at hplaced
    obtain ⟨rfl, -⟩ := hplaced
    rcases Nat.eq_zero_or_pos new.length with hzero | hsize
    · left
      rw [hzero, Span.isNull_ofNat htaken.ptr_lt (by decide)]
      simp
    · right
      intro heq
      have hptr : ptr = s.ptr.toNat := by
        rw [← heq]
        exact (UInt32.toNat_ofNat_of_lt' htaken.ptr_lt).symm
      omega

/-- A sparing run keeps the bytes. -/
theorem sparing (h : Carries s bytes inst.guest) (hpos : 0 < bytes.length)
    (hrun : Sparing s inst later) : Carries s bytes later.guest := by
  induction hrun with
  | done inst => exact h
  | touch t hspare rest ih => exact ih (h.touch t hspare)
  | write new rest ih => exact ih (h.write hpos new).1
  | buffer new hplaced body rest ihbody ihrest =>
    obtain ⟨hwritten, hown⟩ := h.write hpos new
    rw [hplaced] at hwritten
    exact ihrest ((ihbody hwritten).free (hown _ _ hplaced))

end Carries

/-- What has been written is read back after every sparing run, however the calls of the run
    end. And a block that a batch filter leaves live, such as that of its result, was live
    before or lies apart from all blocks that were. -/
theorem readBytes_of_sparing {inst : Instance Guest} (hr : Reachable inst) :
    (∀ data s placed later, (writeBytes data).perform inst = (.ok s, placed) →
        Sparing s placed later → (readBytes s).perform later = (.ok data, later)) ∧
      ∀ h ptr len info, ∀ b ∈ (inst.touch (.batchFilter h ptr len info)).guest.heap.live,
        b ∉ inst.guest.heap.live →
          ∀ c ∈ inst.guest.heap.live, b.stop ≤ c.offset ∨ c.stop ≤ b.offset := by
  refine ⟨fun data s placed later hplaced hrun => ?_, fun h ptr len info b hb hnew c hc => ?_⟩
  · rcases Nat.eq_zero_or_pos data.length with hzero | hpos
    · obtain rfl := List.length_eq_zero_iff.mp hzero
      have hnull : s = ⟨0, 0⟩ := (congrArg Prod.fst hplaced).symm |> Except.ok.inj
      subst hnull
      rfl
    · have hlater := (Carries.of_writeBytes hr.sound hplaced).sparing hpos hrun
      rw [hlater.span_eq]
      exact perform_readBytes hlater.lodged.held
  · rcases guest_touch_batchFilter inst h ptr len info with hguest | hguest
    · exact absurd (hguest ▸ hb) hnew
    · rw [hguest] at hb
      exact hr.sound.apart_batchFilter _ _ _ _ hb hnew hc

/-- Bytes are written, a batch filter inside a buffer leaves its result behind, and a wrong
    pointer breaks the guest down. -/
theorem readBytes_of_sparing_broken :
    ignoringB.Reachable ∧
      ∃ placed later, (writeBytes [104, 105]).perform ignoringB = (.ok ⟨16, 2⟩, placed) ∧
        Sparing ⟨16, 2⟩ placed later ∧ later.tainted = true ∧ later.guest.liveCount = 3 ∧
        (readBytes ⟨16, 2⟩).perform later = (.ok [104, 105], later) := by
  have hplaced : (writeBytes [104, 105]).perform ignoringB =
      (.ok ⟨16, 2⟩, ((writeBytes [104, 105]).perform ignoringB).2) :=
    Prod.ext (eq_ok_of_toOption (by decide +kernel)) rfl
  have hinfo : Span.Apart ⟨16, 2⟩ (32 : UInt32).toNat descriptorSize :=
    Memory.apart_of_le (by decide)
  have hbuffer : ((writeBytes (List.replicate 8 0)).perform
      ((writeBytes [97]).perform ((writeBytes [104, 105]).perform ignoringB).2).2).1 =
        .ok ⟨32, 8⟩ :=
    eq_ok_of_toOption (by decide +kernel)
  have hrun : Sparing ⟨16, 2⟩ ((writeBytes [104, 105]).perform ignoringB).2 _ :=
    .write [97] (.buffer (List.replicate 8 0) (Prod.ext hbuffer rfl)
      (.touch (.batchFilter ⟨1, 1⟩ 24 1 32) hinfo (.done _))
      (.touch (.dealloc 999 8) (fun h => absurd h (by decide)) (.done _)))
  exact ⟨reachable_ignoringB, _, _, hplaced, hrun, by decide +kernel, by decide +kernel,
    (readBytes_of_sparing reachable_ignoringB).1 _ _ _ _ hplaced hrun⟩

end Instance

end PathSieve

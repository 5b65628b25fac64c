/-
  No length is taken for a negative one.

  Sizes and lengths cross to the guest as integers with a sign. The host asks for no more memory
  than the largest of them, and gives each place the length that it was asked for with; what the
  guest says of the length of a result is no longer than the text it was made from. So during all
  that a host does with bytes, from placing them to giving them back, no call reaches a sound
  guest with a negative size or length (`length_nonneg_of_mem_heard`).
-/
import PathSieve.Proofs.Host.Protocol

namespace PathSieve

theorem Reply.eq_ok_of_ofExcept {α : Type} {r : Except Trap α} {a : α}
    (h : Reply.ofExcept r = .returned a) : r = .ok a := by
  cases r with
  | ok b => exact congrArg Except.ok (Reply.returned.inj h)
  | error trap => cases h

/-- The size or the length that a call is made with, if it takes one. -/
def EntryCall.length : EntryCall → Int32
  | .alloc size => size
  | .dealloc _ size => size
  | .createMatcher _ len => len
  | .destroyMatcher _ => 0
  | .isMatch _ _ len _ => len
  | .batchFilter _ _ len _ => len

namespace Guest

open Text

theorem ofWord_nonneg {n : Nat} (h : n < 0x80000000) : 0 ≤ ofWord n :=
  Int32.not_lt.mp (not_ofWord_neg h)

theorem Sound.writeResult_bounds {g g' : Guest} (hs : g.Sound) {kept : List String}
    {resultPtr resultLen : Nat} (hkept : kept ≠ [] → 0 < (Utf8.encode (unlines kept)).length ∧
      (Utf8.encode (unlines kept)).length < 0x80000000)
    (hwrite : g.writeResult kept = .ok (resultPtr, resultLen, g')) :
    resultPtr < 0x100000000 ∧ resultLen < 0x80000000 := by
  by_cases hne : kept = []
  · rw [Guest.writeResult, if_pos (by simp [hne])] at hwrite
    simp only [Except.ok.injEq, Prod.mk.injEq] at hwrite
    omega
  · obtain ⟨hpos, hshort⟩ := hkept hne
    rw [hs.writeResult_eq hne (Nat.le_of_lt_succ hshort) hpos] at hwrite
    split at hwrite
    · cases hwrite
    · next ptr g'' htake =>
      simp only [Except.ok.injEq, Prod.mk.injEq] at hwrite
      exact ⟨hwrite.1 ▸ (hs.take? htake).ptr_lt, hwrite.2.1 ▸ hshort⟩

/-- When a batch filter counts lines, the result that its descriptor tells of is none or short
    enough for a length with a sign. -/
theorem Sound.described_batchFilter {g : Guest} (hs : g.Sound) {handle ptr len info code : Int32}
    (hreply : (g.batchFilter handle ptr len info).1 = .ok code) (hcode : 0 ≤ code) :
    ∃ s, describedAt (g.batchFilter handle ptr len info).2 info.toUInt32 = some s ∧
      s.len.toNat < 0x80000000 := by
  rcases g.batchFilter_reach handle ptr len info with
    ⟨-, hneg⟩ | ⟨hlen, text, rs, kept, resultPtr, resultLen, g', hin, hkept, hwrite, hcall⟩
  · exact absurd (hneg code hreply) (Int32.not_lt.mpr hcode)
  obtain ⟨hptr, hshort⟩ := hs.writeResult_bounds (kept_bounds hlen hin hkept).2 hwrite
  have hresult : resultLen < 0x100000000 := Nat.lt_trans hshort (by decide)
  cases ho : g'.memory.overwrite (word info) (wordBytes resultPtr ++ wordBytes resultLen) with
  | error trap =>
    rw [hcall, ho] at hreply
    cases hreply
  | ok memory =>
    obtain ⟨hin', rfl⟩ := Memory.overwrite_ok ho
    rw [hcall, ho]
    refine ⟨⟨UInt32.ofNat resultPtr, UInt32.ofNat resultLen⟩,
      describedAt_holding hptr hresult hin', ?_⟩
    rwa [UInt32.toNat_ofNat_of_lt' hresult]

end Guest

namespace Instance

open Guest PathSieve.Action

variable {α β : Type}

/-- The guest is sound, and no size or length that it has heard is negative. -/
structure Measured (inst : Instance (Overheard Guest)) : Prop where
  sound : inst.guest.guest.Sound
  length_nonneg : ∀ x ∈ inst.guest.heard, 0 ≤ x.call.length

/-- What a call of a sound guest comes to, if its length is not negative. -/
theorem meets_entry {entry : EntryPoint} {c : EntryCall} {f : Guest → Reply α × Guest}
    {ok : α → Instance (Overheard Guest) → Prop} (hlen : 0 ≤ c.length)
    (hrun : ∀ g, (f g).2 = (c.run g).2) (hcalm : ∀ g text, (f g).1 ≠ .panicked text)
    (hok : ∀ (next : Instance (Overheard Guest)) g x, Measured next → g.Sound →
      f g = (.returned x, next.guest.guest) → ok x next) :
    Meets Measured (call entry fun o : Overheard Guest => o.enter c f) ok Measured := by
  refine meets_call (fun _ h _ => h) fun inst h _ => ?_
  have hheard : ∀ ending, ∀ x ∈ inst.guest.heard ++ [⟨c, ending⟩], 0 ≤ x.call.length := by
    intro ending x hx
    rcases List.mem_append.mp hx with hx | hx
    · exact h.length_nonneg x hx
    · exact List.mem_singleton.mp hx ▸ hlen
  have hsound : (f inst.guest.guest).2.Sound := hrun inst.guest.guest ▸ h.sound.run c
  unfold Overheard.enter
  rcases hf : f inst.guest.guest with ⟨x | trap | text, g⟩ <;> rw [hf] at hsound
  · exact hok _ inst.guest.guest x ⟨hsound, hheard _⟩ h.sound hf
  · exact ⟨hsound, hheard _⟩
  · exact hcalm _ text (congrArg Prod.fst hf)

/-- Does an action ask for nothing with a negative length, and not unwind? -/
def Careful (a : Action (Overheard Guest) α) : Prop :=
  Meets Measured a (fun _ => Measured) Measured

theorem careful_pure (x : α) : Careful (pure x) := meets_pure fun _ h => h

theorem careful_fail (e : Error) : Careful (fail e : Action _ α) := meets_fail fun _ h => h

theorem careful_bind {a : Action (Overheard Guest) α} {f : α → Action (Overheard Guest) β}
    (ha : Careful a) (hf : ∀ x, Careful (f x)) : Careful (a >>= f) :=
  meets_bind ha hf

theorem careful_give (result : Except Error α) : Careful (give result) :=
  meets_give (fun _ _ _ h => h) fun _ _ _ h => h

theorem careful_entry {entry : EntryPoint} {c : EntryCall} {f : Guest → Reply α × Guest}
    (hlen : 0 ≤ c.length) (hrun : ∀ g, (f g).2 = (c.run g).2)
    (hcalm : ∀ g text, (f g).1 ≠ .panicked text) :
    Careful (call entry fun o : Overheard Guest => o.enter c f) :=
  meets_entry hlen hrun hcalm fun _ _ _ h _ _ => h

theorem careful_rawOf (h : Handle) : Careful (rawOf h) :=
  meets_get_bind fun _ =>
    meets_ite (fun _ => meets_pure fun _ h => h.2) fun _ => meets_fail fun _ h => h.2

/-- Giving a range back that is not too long. -/
theorem meets_freeBytes_of_lt {s : Span} (h : s.len.toNat < 0x80000000) :
    Meets Measured (freeBytes s : Action (Overheard Guest) Unit) (fun _ => Measured)
      fun _ => False := by
  have hlen : 0 ≤ s.len.toInt32 := toInt32_eq_ofWord s.len ▸ ofWord_nonneg h
  refine meets_ite (fun _ => meets_pure fun _ h => h) fun _ => meets_quietly ?_
  exact careful_entry hlen (fun _ => rfl) fun g => calm_guest.dealloc g _ _

/-- A range in which bytes have been placed, and that is not too long. -/
structure Short (bytes : List UInt8) (s : Span) : Prop where
  placed : Placed bytes s
  len_lt : s.len.toNat < 0x80000000

theorem meets_writeBytes_short (bytes : List UInt8) :
    Meets Measured (writeBytes bytes : Action (Overheard Guest) Span)
      (fun s inst => Short bytes s ∧ Measured inst) Measured := by
  refine meets_ite (fun hempty => meets_pure fun _ h => ?_) fun hne => ?_
  · obtain rfl := List.isEmpty_iff.mp hempty
    exact ⟨⟨⟨rfl, rfl⟩, by decide⟩, h⟩
  -- a longer list is turned away before the guest is asked
  by_cases hmax : maxAllocation < bytes.length
  · have halloc : (alloc bytes.length : Action (Overheard Guest) UInt32) = fail _ := if_pos hmax
    rw [halloc]
    exact fun inst h => h
  have hmax' := Nat.le_of_not_lt hmax
  have hlen : bytes.length < 0x80000000 := Nat.lt_succ_of_le hmax'
  have halloc : Careful (alloc bytes.length) :=
    meets_ite (fun _ => careful_fail _) fun _ => careful_bind
      (careful_entry (c := .alloc _) (ofWord_nonneg hlen) (fun _ => rfl)
        fun g => calm_guest.alloc g _) fun _ => careful_pure _
  refine meets_bind halloc fun ptr => ?_
  refine meets_ite (fun _ => meets_fail fun _ h => h) fun hptr => ?_
  have hshort : Short bytes ⟨ptr, UInt32.ofNat bytes.length⟩ := by
    refine ⟨placed_of_alloc (by simpa using hne) hptr hmax', ?_⟩
    rwa [UInt32.toNat_ofNat_of_lt' (Nat.lt_trans hlen (by decide))]
  refine meets_get_bind fun inst => ?_
  refine meets_ite (fun _ => ?_) fun hin => ?_
  · refine meets_bind (meets_mono (meets_freeBytes_of_lt hshort.len_lt) (fun _ h => h.2)
      (fun _ _ h => h) fun _ h => False.elim h) fun _ => meets_fail fun _ h => h
  · intro next hinst
    obtain ⟨rfl, h⟩ := hinst
    rw [perform_bind, perform_store (Nat.le_of_not_lt hin)]
    exact ⟨hshort, h.sound.store _ _, h.length_nonneg⟩

theorem careful_withBuffer (bytes : List UInt8) {body : Span → Action (Overheard Guest) α}
    (hbody : ∀ s, Short bytes s → Careful (body s)) : Careful (withBuffer bytes body) := by
  refine meets_bind (meets_writeBytes_short bytes) fun s inst hinst => ?_
  obtain ⟨hshort, h⟩ := hinst
  exact meets_ensuring (hbody s hshort) (meets_freeBytes_of_lt hshort.len_lt) inst h

/-! ## Compiling, asking and filtering -/

theorem Short.len_nonneg {bytes : List UInt8} {s : Span} (h : Short bytes s) :
    0 ≤ s.len.toInt32 :=
  toInt32_eq_ofWord s.len ▸ ofWord_nonneg h.len_lt

theorem careful_destroyMatcher (h : Handle) : Careful (destroyMatcher h) :=
  careful_bind (careful_rawOf h) fun raw =>
    careful_entry (c := .destroyMatcher raw) (Int32.le_refl 0) (fun _ => rfl)
      fun g => calm_guest.destroyMatcher g _

theorem careful_compile (rules : String) : Careful (compile rules) :=
  careful_bind (careful_withBuffer _ fun s hs =>
      careful_entry (c := .createMatcher s.ptr.toInt32 s.len.toInt32) hs.len_nonneg (fun _ => rfl)
        fun g => calm_guest.createMatcher g _ _)
    fun _ => meets_get_bind fun _ => meets_mono (careful_give _) (fun _ h => h.2)
      (fun _ _ h => h) fun _ h => h

theorem careful_ask (h : Handle) (path : List UInt8) (isDir : Bool) : Careful (ask h path isDir) :=
  careful_bind (careful_withBuffer _ fun s hs => careful_bind (careful_rawOf h) fun raw =>
      careful_entry (c := .isMatch raw s.ptr.toInt32 s.len.toInt32 (if isDir then 1 else 0))
        hs.len_nonneg (fun _ => rfl) fun g => calm_guest.isMatch g _ _ _ _)
    fun _ => careful_give _

/-- A descriptor tells of a range that is not too long. -/
structure Promising (info : UInt32) (inst : Instance (Overheard Guest)) : Prop where
  measured : Measured inst
  short : ∃ s, describedAt inst.guest.guest info = some s ∧ s.len.toNat < 0x80000000

theorem meets_fetchResult_of_promising {info : Span} (hnull : info.isNull = false)
    (hlen : info.len.toNat = descriptorSize) (count : Nat) :
    Meets (Promising info.ptr) (fetchResult count info : Action (Overheard Guest) (List String))
      (fun _ => Measured) Measured := by
  intro inst hinst
  obtain ⟨h, s, hs, hlt⟩ := hinst
  have hread := perform_readBytes_descriptor hnull hlen inst
  have hdescribed : describedAt inst.guest info.ptr = some s := hs
  rw [hdescribed] at hread
  obtain ⟨bytes, hbytes, hspan⟩ := hread
  unfold fetchResult
  simp only [perform_bind, hbytes, hspan, perform_pure]
  refine meets_ite (fun _ => careful_fail _) (fun _ => ?_) inst h
  refine meets_bind (meets_ensuring (meets_readBytes s) (meets_freeBytes_of_lt hlt)) fun bytes => ?_
  split
  · exact careful_pure _
  · exact careful_fail _

/-- A batch filter that counts lines describes a result that is not too long. -/
theorem meets_batchFilter_promising (h : Handle) {s : Span} (hs : 0 ≤ s.len.toInt32)
    (info : UInt32) :
    Meets Measured (batchFilter h s.ptr s.len info)
      (fun code inst => Measured inst ∧ (0 < code → Promising info inst)) Measured := by
  refine meets_bind (careful_rawOf h) fun raw => ?_
  refine meets_entry (c := .batchFilter raw s.ptr.toInt32 s.len.toInt32 info.toInt32) hs
    (fun _ => rfl) (fun g => calm_guest.batchFilter g _ _ _ _) fun next g code hnext hg hf => ?_
  refine ⟨hnext, fun hpos => ⟨hnext, ?_⟩⟩
  obtain ⟨hreply, hguest⟩ := Prod.mk.inj hf
  rw [← hguest]
  exact hg.described_batchFilter (Reply.eq_ok_of_ofExcept hreply) (Int32.le_of_lt hpos)

theorem careful_filterPlaced (h : Handle) {text info : Span} (htext : 0 ≤ text.len.toInt32)
    (hnull : info.isNull = false) (hlen : info.len.toNat = descriptorSize) :
    Careful (filterPlaced h text info) := by
  refine meets_bind (meets_batchFilter_promising h htext info.ptr) fun code => ?_
  by_cases hpos : 0 < code
  · obtain ⟨n, hn⟩ := countOfCode_of_pos hpos
    rw [hn]
    exact fun inst hinst => meets_fetchResult_of_promising hnull hlen (n + 1) inst (hinst.2 hpos)
  · cases hcount : countOfCode code with
    | error e => exact fun inst hinst => hinst.1
    | ok n =>
      obtain rfl := eq_zero_of_countOfCode hpos hcount
      exact fun inst hinst => hinst.1

theorem careful_filter (h : Handle) (paths : List String) : Careful (filter h paths) := by
  rw [filter_eq]
  refine meets_ite (fun _ => careful_pure _) fun _ => careful_withBuffer _ fun text htext =>
    careful_withBuffer _ fun info hinfo => ?_
  refine careful_filterPlaced h htext.len_nonneg hinfo.placed.isNull_eq ?_
  rw [hinfo.placed.len_eq]
  rfl

theorem careful_action (call : HostCall) : Careful call.action := by
  cases call with
  | compile rules => exact careful_bind (careful_compile rules) fun _ => careful_pure _
  | ask h path isDir => exact careful_bind (careful_ask h path isDir) fun _ => careful_pure _
  | filter h paths => exact careful_bind (careful_filter h paths) fun _ => careful_pure _
  | drop h =>
    exact careful_bind (meets_mono (meets_quietly (careful_destroyMatcher h)) (fun _ h => h)
      (fun _ _ h => h) fun _ h => False.elim h) fun _ => careful_pure _
  | work rules paths =>
    refine careful_bind (careful_bind (careful_compile rules) fun h => ?_) fun _ => careful_pure _
    exact meets_ensuring (careful_filter h paths) (meets_quietly (careful_destroyMatcher h))

/-! ## What is heard -/

theorem Careful.heard {c : InstanceOp} (hc : Careful c.action) {inst : Instance Guest}
    (hs : inst.guest.Sound) : ∀ x ∈ inst.heard c, 0 ≤ x.call.length := by
  have h := hc inst.overheard ⟨hs, fun x hx => absurd hx List.not_mem_nil⟩
  unfold Instance.heard work
  rcases hp : c.action.perform inst.overheard with ⟨(_ | _) | _, next⟩ <;> rw [hp] at h
  · exact h.length_nonneg
  · exact h.elim
  · exact h.length_nonneg

/-- While bytes are placed, and during a call of the host, no call reaches the guest with a
    negative size or length. -/
theorem length_nonneg_of_mem_heard {inst : Instance Guest} (hs : inst.guest.Sound) :
    (∀ bytes, ∀ x ∈ inst.heard (.write bytes), 0 ≤ x.call.length) ∧
      ∀ call, ∀ x ∈ inst.heard (.call call), 0 ≤ x.call.length := by
  refine ⟨fun bytes => Careful.heard ?_ hs,
    fun call => Careful.heard (c := .call call) (careful_action call) hs⟩
  exact meets_bind (meets_mono (meets_writeBytes_short bytes) (fun _ h => h) (fun _ _ h => h.2)
    fun _ h => h) fun _ => careful_pure _

end Instance

end PathSieve

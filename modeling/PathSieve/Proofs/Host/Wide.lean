/-
  High places are as good as low ones.

  A guest may grow to the whole of the 32-bit places, and a pointer to the upper half of them
  crosses as a negative integer. Bytes are written wherever the allocator finds a place for them
  (`WriteEnds`), and what is stowed in a block of its own can be read, compiled, decided, filtered
  and given back wherever the block lies; it is that block that is read and given back
  (`Instance.lossless`). No sum and no difference that the allocator forms leaves the
  32-bit numbers, and no length that the host or the guest names is taken for a negative one.
  The length is as it was asked for: a block of 2^31 bytes is handed out for one byte less, and
  nobody gives it back by its own size.
-/
import PathSieve.Proofs.Host.Freed
import PathSieve.Proofs.Host.Lengths
import PathSieve.Proofs.Sandbox.Checked

namespace PathSieve

namespace Guest

open Text

/-- Bytes lie in a live block of their own, which is as large as they are, with its padding. -/
structure Stowed (g : Guest) (s : Span) (bytes : List UInt8) : Prop where
  length_eq : bytes.length = s.len.toNat
  length_pos : 0 < bytes.length
  held : g.Held s.ptr.toNat bytes
  live : ⟨s.ptr.toNat, Heap.padded bytes.length⟩ ∈ g.heap.live

namespace Stowed

variable {g : Guest} {s : Span} {bytes : List UInt8}

theorem span_eq (h : g.Stowed s bytes) : s = .ofNat s.ptr.toNat bytes.length := by
  rw [h.length_eq, Span.ofNat, UInt32.ofNat_toNat, UInt32.ofNat_toNat]

theorem isNull_eq (h : g.Stowed s bytes) : s.isNull = false := by
  have hptr := h.held.ptr_pos h.length_pos
  have hlen := h.length_pos
  rw [h.span_eq, Span.isNull_ofNat h.held.ptr_lt h.held.length_lt']
  simp [Nat.pos_iff_ne_zero.mp hptr, Nat.pos_iff_ne_zero.mp hlen]

theorem len_eq (h : g.Stowed s bytes) : s.len.toInt32 = ofWord bytes.length := by
  rw [h.length_eq, toInt32_eq_ofWord]

theorem names {text : String} (h : g.Stowed s (Utf8.encode text)) :
    g.Names s.ptr.toInt32 s.len.toInt32 text := by
  rw [toInt32_eq_ofWord s.ptr, h.len_eq]
  refine ⟨ofWord_nonneg h.held.length_lt, fun _ => ?_, h.held.input⟩
  rw [Ne, ofWord_eq_zero_iff h.held.ptr_lt]
  exact Nat.pos_iff_ne_zero.mp (h.held.ptr_pos h.length_pos)

/-- The bytes that a range shows are stowed there, if it names a live block and is not too long. -/
theorem of_live (hs : g.Sound) (hpos : 0 < s.len.toNat) (hlt : s.len.toNat < 0x80000000)
    (hlive : ⟨s.ptr.toNat, Heap.padded s.len.toNat⟩ ∈ g.heap.live) :
    g.Stowed s (g.memory.load s.ptr.toNat s.len.toNat) := by
  have hlen : (g.memory.load s.ptr.toNat s.len.toNat).length = s.len.toNat :=
    Memory.length_load ..
  have hinside := hs.heap.inside _ hlive
  have hbase := (Block.bounds_of_mem hs.heap.laid.spaced hlive).1
  have hpad : s.len.toNat ≤ Heap.padded s.len.toNat := by
    simp only [Heap.padded, Heap.unit]
    omega
  simp only [Block.stop, Heap.base] at hinside hbase
  refine ⟨hlen, by rwa [hlen], ⟨.inr ⟨?_, ?_⟩, by rwa [hlen], s.ptr.toNat_lt, fun _ => ?_⟩, ?_⟩
  · omega
  · rw [hlen]
  · omega
  · rwa [hlen]

end Stowed

end Guest

namespace Instance

open Guest PathSieve.Action Text

variable {α : Type} {inst : Instance Guest} {s : Span} {bytes : List UInt8}

/-- How a call of the guest comes back to the host that has made it. -/
def passOn (inst : Instance Guest) (entry : EntryPoint) :
    Except Trap α × Guest → Except Failure α × Instance Guest
  | (.ok x, g) => (.ok x, inst.withGuest g)
  | (.error trap, g) => (.error (.error (broken entry trap)), (inst.withGuest g).taint)

theorem perform_call_ofExcept (ht : inst.tainted = false) {entry : EntryPoint}
    {f : Guest → Reply α × Guest} {r : Except Trap α × Guest}
    (hf : f inst.guest = (.ofExcept r.1, r.2)) :
    (call entry f).perform inst = inst.passOn entry r := by
  rw [perform_call ht, hf]
  rcases r with ⟨_ | _, g⟩ <;> rfl

/-- The bytes in a range are read as they are, and giving the range back ends the life of its
    block and of no other. -/
structure Yields (inst : Instance Guest) (s : Span) (bytes : List UInt8) : Prop where
  reads : (readBytes s).perform inst = (.ok bytes, inst)
  frees : ∃ h, (freeBytes s).perform inst = (.ok (), inst.withGuest (inst.guest.withHeap h)) ∧
    inst.guest.heap.live.Perm (⟨s.ptr.toNat, Heap.padded bytes.length⟩ :: h.live)

/-- The bytes in a range are the rule text, the path or the path list of a call that is given
    the range. -/
structure Obeys (inst : Instance Guest) (s : Span) (bytes : List UInt8) : Prop where
  compiles : (createMatcher s.ptr s.len).perform inst =
    match RuleSet.ofText? bytes with
    | none => (.ok (-3), inst)
    | some rs => (.ok (inst.nextHandle rs).raw,
        inst.withGuest { inst.guest with rules := (inst.guest.rules.insert rs).2 })
  decides : ∀ h isDir, ∃ (result : Except Error Int32) (done : Instance Guest),
    (isMatch h s.ptr s.len isDir).perform inst = (result.mapError .error, done) ∧
      result.bind verdictOfCode = (inst.look h).verdict bytes isDir ∧ done.guest = inst.guest
  /-- A result that a descriptor tells of can be read and given back itself. -/
  filters : ∀ h rs text, h.instanceId = inst.id → inst.guest.rules.get? (word h.raw) = some rs →
    bytes = Utf8.encode text → ∀ info : UInt32, (∃ d ∈ inst.guest.heap.live,
      d.offset ≤ info.toNat ∧ info.toNat + descriptorSize ≤ d.stop) →
    ∃ r, (batchFilter h s.ptr s.len info).perform inst = inst.passOn .batchFilter r ∧
      inst.guest.Filters rs text info.toInt32 r ∧
      ∀ code t, r.1 = .ok code → 0 < code → describedAt r.2 info = some t →
        ∃ result, (inst.withGuest r.2).Yields t result ∧
          (Utf8.decode? result).map lines = some (rs.kept (lines text))

theorem yields (hs : inst.guest.Sound) (ht : inst.tainted = false)
    (h : inst.guest.Stowed s bytes) : inst.Yields s bytes := by
  refine ⟨?_, ?_⟩
  · have hread := perform_readBytes h.held
    rwa [← h.span_eq] at hread
  have hptr := Nat.pos_iff_ne_zero.mp (h.held.ptr_pos h.length_pos)
  have hround : Heap.roundUp? s.len.toNat = some (Heap.padded bytes.length) :=
    h.length_eq ▸ Heap.roundUp?_eq_padded (Nat.le_of_lt_succ h.held.length_lt)
  have hnamed : ¬ (s.ptr.toInt32 = 0 ∨ s.len.toInt32 ≤ 0) := by
    rw [h.span_eq, Span.ofNat, toInt32_ofNat, toInt32_ofNat, ofWord_eq_zero_iff h.held.ptr_lt]
    exact not_or.mpr ⟨hptr, not_ofWord_le_zero h.length_pos h.held.length_lt⟩
  have hfrees := frees_freeBytes hs s
  generalize (freeBytes s).perform inst = r at hfrees ⊢
  cases hfrees with
  | nothing hvoid => rw [h.isNull_eq, ht] at hvoid; simp at hvoid
  | returned _ _ hguest =>
    cases hguest with
    | nothing hvoid => exact absurd hvoid hnamed
    | block _ _ hcomes =>
      cases hcomes with
      | @block b _ _ hoff hsize hperm =>
        have hb : b = ⟨s.ptr.toNat, Heap.padded bytes.length⟩ := by
          rw [word_toInt32] at hoff hsize
          rw [← hoff, ← Option.some.inj (hsize.symm.trans hround)]
        exact ⟨_, rfl, hb ▸ hperm⟩
  | trapped _ _ hguest =>
    cases hguest with
    | trap _ _ hcomes =>
      cases hcomes with
      | trap hnone => exact absurd hround (hnone _ h.live rfl)

theorem guest_isMatch (inst : Instance Guest) (h : Handle) (ptr len : UInt32) (isDir : Bool) :
    ((isMatch h ptr len isDir).perform inst).2.guest = inst.guest :=
  keeps_bind (keeps_rawOf h) (fun _ => keeps_call (P := (· = inst.guest)) .isMatch
    fun _ hg => hg) inst rfl

/-- A result that has been delivered can be read and given back. -/
theorem yields_of_filters {g : Guest} {rs : RuleSet} {text : String} {info : Int32}
    {r : Except Trap Int32 × Guest} (hs : r.2.Sound) (ht : inst.tainted = false)
    (hr : g.Filters rs text info r) {code : Int32} {t : Span} (hcode : r.1 = .ok code)
    (hpos : 0 < code) (hdescribed : describedAt r.2 info.toUInt32 = some t) :
    ∃ result, (inst.withGuest r.2).Yields t result ∧
      (Utf8.decode? result).map lines = some (rs.kept (lines text)) := by
  cases hr with
  | unrooted _ => cases hcode
  | exhausted _ _ _ => cases hcode
  | none _ _ _ _ _ =>
    obtain rfl := Except.ok.inj hcode
    exact absurd hpos (by decide)
  | @some _ span b g' _ _ _ hdelivered =>
    obtain rfl := Option.some.inj (hdelivered.described.symm.trans hdescribed)
    have hb : b = ⟨span.ptr.toNat, Heap.padded span.len.toNat⟩ := by
      rw [← hdelivered.offset_eq, ← hdelivered.size_eq]
    have hlive : b ∈ g'.heap.live := hdelivered.live_perm.mem_iff.mpr List.mem_cons_self
    have hstowed : g'.Stowed span _ :=
      .of_live hs hdelivered.len_pos hdelivered.len_lt (hb ▸ hlive)
    exact ⟨_, @yields (inst.withGuest g') _ _ hs ht hstowed, hdelivered.lines_eq⟩

theorem obeys (hs : inst.guest.Sound) (ht : inst.tainted = false)
    (h : inst.guest.Stowed s bytes) : inst.Obeys s bytes := by
  refine ⟨?_, fun handle isDir => ?_, fun handle rs text hown hrs htext info hinfo => ?_⟩
  · have hcreate := h.held.createMatcher
    unfold createMatcher
    rw [toInt32_eq_ofWord s.ptr, h.len_eq, perform_call ht]
    simp only [Backend.createMatcher, hcreate]
    cases RuleSet.ofText? bytes <;> rfl
  · obtain ⟨result, done, hmatch, hanswer, -⟩ := perform_isMatch ht h.held handle isDir
    rw [← h.span_eq] at hmatch
    have hguest := inst.guest_isMatch handle s.ptr s.len isDir
    rw [hmatch] at hguest
    exact ⟨result, done, hmatch, hanswer, hguest⟩
  · subst htext
    have hfilters : inst.guest.Filters rs text info.toInt32
        (inst.guest.batchFilter handle.raw s.ptr.toInt32 s.len.toInt32 info.toInt32) :=
      hs.filters hrs h.names hinfo
    refine ⟨_, ?_, hfilters, fun code t hcode hpos hdescribed =>
      yields_of_filters (hs.batchFilter ..) ht hfilters hcode hpos hdescribed⟩
    unfold batchFilter
    rw [perform_bind, perform_rawOf, if_pos hown]
    exact perform_call_ofExcept ht rfl

/-- Bytes have been written into a block that was not live before, and nowhere else. -/
structure Writes (inst : Instance Guest) (bytes : List UInt8) (s : Span)
    (next : Instance Guest) : Prop where
  stowed : next.guest.Stowed s bytes
  live_perm : next.guest.heap.live.Perm
    (⟨s.ptr.toNat, Heap.padded bytes.length⟩ :: inst.guest.heap.live)
  same : SameBut (fun i => s.ptr.toNat ≤ i ∧ i < s.ptr.toNat + bytes.length) inst.guest next.guest
  sound : next.guest.Sound
  untainted : next.tainted = false

theorem writes (hs : inst.guest.Sound) (ht : inst.tainted = false) (hne : bytes ≠ [])
    {ptr : Nat} {g : Guest} (htake : inst.guest.take? bytes.length = some (ptr, g)) :
    inst.Writes bytes (.ofNat ptr bytes.length) (inst.withGuest (g.holding ptr bytes)) := by
  have hpos := List.length_pos_iff.mpr hne
  have htaken := hs.take? htake
  have hperm := hs.live_perm_take? hpos htake
  have hptr : (Span.ofNat ptr bytes.length).ptr.toNat = ptr :=
    UInt32.toNat_ofNat_of_lt' htaken.ptr_lt
  have hlen : bytes.length = (Span.ofNat ptr bytes.length).len.toNat :=
    (UInt32.toNat_ofNat_of_lt' htaken.held.length_lt').symm
  refine ⟨⟨hlen, hpos, ?_, ?_⟩, ?_, ⟨htaken.name_eq, htaken.rules_eq,
    htaken.later.trans (.store ..), fun i hi => ?_⟩, htaken.sound.store ptr bytes, ht⟩
  all_goals rw [hptr] at *
  · exact htaken.held
  · exact hperm.mem_iff.mpr List.mem_cons_self
  · exact hperm
  · show (g.memory.store ptr bytes).byteAt i = _
    rw [Memory.byteAt_store, if_neg hi, Memory.byteAt, Memory.byteAt, htaken.cells_eq]

/-- How it ends to write bytes. -/
inductive WriteEnds (inst : Instance Guest) (bytes : List UInt8) :
    Except Failure Span × Instance Guest → Prop where
  /-- They are too many, or the allocator finds no place for them. -/
  | noRoom (full : maxAllocation < bytes.length ∨
      inst.guest.heap.alloc? inst.guest.memory bytes.length = none) :
    WriteEnds inst bytes (.error (.error (.allocationFailed bytes.length)), inst)
  /-- They are written where the allocator finds a place for them, and can be used there. -/
  | written {s : Span} {next : Instance Guest} {heap : Heap} {memory : Memory}
    (found : inst.guest.heap.alloc? inst.guest.memory bytes.length =
      some (s.ptr.toNat, heap, memory))
    (writes : inst.Writes bytes s next) (yields : next.Yields s bytes)
    (obeys : next.Obeys s bytes) : WriteEnds inst bytes (.ok s, next)

theorem writeEnds (hs : inst.guest.Sound) (ht : inst.tainted = false) (hne : bytes ≠ []) :
    inst.WriteEnds bytes ((writeBytes bytes).perform inst) := by
  have hlen : bytes.length ≠ 0 := mt List.length_eq_zero_iff.mp hne
  cases htake : inst.guest.take? bytes.length with
  | none =>
    rw [perform_writeBytes_none ht htake]
    rw [Guest.take?, if_neg hlen] at htake
    split at htake
    · next hmax => exact .noRoom (.inl hmax)
    · exact .noRoom (.inr (Option.map_eq_none_iff.mp htake))
  | some r =>
    obtain ⟨ptr, g⟩ := r
    have hwrites := writes hs ht hne htake
    have hptr : (Span.ofNat ptr bytes.length).ptr.toNat = ptr :=
      UInt32.toNat_ofNat_of_lt' (hs.take? htake).ptr_lt
    rw [perform_writeBytes hs ht htake]
    rw [Guest.take?, if_neg hlen] at htake
    split at htake
    · cases htake
    obtain ⟨⟨ptr', heap, memory⟩, halloc, heq⟩ := Option.map_eq_some_iff.mp htake
    simp only [Prod.mk.injEq] at heq
    obtain ⟨rfl, -⟩ := heq
    exact .written (by rw [halloc, hptr]) hwrites
      (yields hwrites.sound hwrites.untainted hwrites.stowed)
      (obeys hwrites.sound hwrites.untainted hwrites.stowed)

/-- On an instance in use, however far its memory has grown, the allocator comes to the same in
    32-bit numbers, and no call is made with a negative size or length. While it is not tainted,
    bytes are written wherever a place is found for them, and stowed there in a block of their
    own; where something is stowed, it is what is read, what the calls of the guest are about and
    what is given back, and so is a result that the guest has described. -/
theorem lossless (hr : inst.Reachable) :
    (∀ size, inst.guest.heap.alloc32? inst.guest.memory size =
        some (inst.guest.heap.alloc? inst.guest.memory size)) ∧
      (∀ ptr size, inst.guest.heap.dealloc32? ptr size =
        some (inst.guest.heap.dealloc ptr size)) ∧
      (∀ bytes, ∀ x ∈ inst.heard (.write bytes), 0 ≤ x.call.length) ∧
      (∀ call, ∀ x ∈ inst.heard (.call call), 0 ≤ x.call.length) ∧
      (inst.tainted = false →
        (∀ bytes, bytes ≠ [] → inst.WriteEnds bytes ((writeBytes bytes).perform inst)) ∧
          ∀ s bytes, inst.guest.Stowed s bytes → inst.Yields s bytes ∧ inst.Obeys s bytes) := by
  have hs := hr.sound
  obtain ⟨hwrite, hcall⟩ := length_nonneg_of_mem_heard hs
  exact ⟨hs.heap.alloc32?_eq, hs.heap.dealloc32?_eq, hwrite, hcall, fun ht =>
    ⟨fun _ hne => writeEnds hs ht hne, fun s bytes h => ⟨yields hs ht h, obeys hs ht h⟩⟩⟩

/-- An instance with a compiled rule, the lower half of whose places is taken. -/
def halfTaken : Instance Guest :=
  ((compile "b").perform
    { id := 1, poolId := 1, name := "matcher_1",
      guest := Guest.fresh "matcher_1" 1 maxAddressablePages }).2.touch (.alloc maxAllocation)

theorem reachable_halfTaken : halfTaken.Reachable :=
  (invariant_reachable.compile "b" _ (.fresh 1 1 "matcher_1" 1 maxAddressablePages)).touch _

/-- The memory is the largest that is accepted. The bytes and the result for them lie behind
    2^31 places, and their pointers are negative. -/
theorem lossless_halfTaken :
    (Config.mk 1 65536 none).check.toOption = some () ∧ halfTaken.Reachable ∧
      halfTaken.tainted = false ∧
      ∃ next, (writeBytes [97, 10, 98]).perform halfTaken = (.ok ⟨0x80000010, 3⟩, next) ∧
        UInt32.toInt32 0x80000010 < 0 ∧ halfTaken.Writes [97, 10, 98] ⟨0x80000010, 3⟩ next ∧
        next.Yields ⟨0x80000010, 3⟩ [97, 10, 98] ∧ next.Obeys ⟨0x80000010, 3⟩ [97, 10, 98] ∧
        ((batchFilter ⟨1, 1⟩ 0x80000010 3 0x80000040).perform next).1.toOption = some 1 ∧
        describedAt (next.touch (.batchFilter ⟨1, 1⟩ 0x80000010 3 0x80000040)).guest 0x80000040 =
          some ⟨0x80000018, 1⟩ := by
  have htaint : halfTaken.tainted = false := by decide +kernel
  obtain ⟨-, -, -, -, huse⟩ := lossless reachable_halfTaken
  have hok : (writeBytes [97, 10, 98]).perform halfTaken =
      (.ok ⟨0x80000010, 3⟩, ((writeBytes [97, 10, 98]).perform halfTaken).2) :=
    Prod.ext (eq_ok_of_toOption (by decide +kernel)) rfl
  have hends := (huse htaint).1 [97, 10, 98] (by decide)
  rw [hok] at hends
  cases hends with
  | written _ hwrites hyields hobeys =>
    exact ⟨by decide +kernel, reachable_halfTaken, htaint, _, hok, by decide, hwrites, hyields,
      hobeys, by decide +kernel, by decide +kernel⟩

end Instance

end PathSieve

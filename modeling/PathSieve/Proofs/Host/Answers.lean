/-
  What compiling, asking and filtering come to on the guest that evaluates rule sets.

  On an instance that is not tainted and whose guest is sound, each of the three is a
  plain function of the state: is there room for what has to be placed, what is known
  under the handle (`look`), and what does the rule set say (`compileAnswer`, `Seen.ask`,
  `Seen.filter`). The instance is left as it was, but for a compiled rule set; it is
  tainted exactly when the answer is a broken call.
-/
import PathSieve.Proofs.Host.Carry
import PathSieve.Proofs.Sandbox.Entry

namespace PathSieve.Instance

open Guest PathSieve.Action

variable {α : Type}

/-- A call that the guest has cut short. -/
def broken (entry : EntryPoint) (trap : Trap) : Error :=
  .transport entry (.trapped trap)

/-- Does an answer say that the guest has broken down? -/
def breaks : Except Error α → Bool
  | .error e => e.isTransport
  | .ok _ => false

/-- What an instance knows under a handle. -/
inductive Seen where
  /-- The handle has no number on the instance. -/
  | foreign
  /-- There is no rule set under it. -/
  | missing
  | found (rs : RuleSet)

/-- What is known under a handle. -/
def look (inst : Instance Guest) (h : Handle) : Seen :=
  if h.instanceId ≠ inst.id || h.raw ≤ 0 then .foreign
  else
    match inst.guest.rules.get? (word h.raw) with
    | none => .missing
    | some rs => .found rs

theorem look_of_ne {inst : Instance Guest} {h : Handle} (hne : inst.id ≠ h.instanceId) :
    inst.look h = .foreign := by
  unfold look
  rw [if_pos (by simp [hne.symm])]

/-- Under a handle of the instance itself it is the table that says. -/
theorem look_of_eq {inst : Instance Guest} {h : Handle} (hown : inst.id = h.instanceId)
    (hpos : 0 < h.raw) :
    inst.look h = (inst.guest.rules.get? (word h.raw)).elim .missing .found := by
  unfold look
  rw [if_neg (by simp [hown, Int32.not_le.mpr hpos])]
  cases inst.guest.rules.get? (word h.raw) <;> rfl

/-- The rule set that a text compiles to, where `room` says for which sizes there is
    room. -/
def compileAnswer (room : List Nat → Bool) (rules : String) : Except Error RuleSet :=
  if !room [(Text.Utf8.encode rules).length] then
    .error (.allocationFailed (Text.Utf8.encode rules).length)
  else
    match RuleSet.ofText? (Text.Utf8.encode rules) with
    | none => .error .compileFailed
    | some rs => .ok rs

theorem ofText?_of_compileAnswer {room : List Nat → Bool} {rules : String} {rs : RuleSet}
    (h : compileAnswer room rules = .ok rs) :
    RuleSet.ofText? (Text.Utf8.encode rules) = some rs := by
  unfold compileAnswer at h
  split at h
  · cases h
  · split at h
    · cases h
    · next rs' heq => rw [heq, Except.ok.inj h]

namespace Seen

/-- The answer about a path that has been placed. -/
def verdict (seen : Seen) (path : List UInt8) (isDir : Bool) : Except Error Verdict :=
  match seen with
  | .foreign => .error .invalidHandle
  | seen =>
    if (Text.Utf8.decode? path).isNone then .error .pathEncoding
    else
      match seen with
      | .found rs =>
        match rs.verdict? path isDir with
        | none => .error (broken .isMatch (.unrooted .isMatch))
        | some v => .ok v
      | _ => .error .handleNotFound

/-- The answer about a path, where `room` says for which sizes there is room. -/
def ask (seen : Seen) (room : List Nat → Bool) (path : List UInt8) (isDir : Bool) :
    Except Error Verdict :=
  if !room [path.length] then .error (.allocationFailed path.length)
  else seen.verdict path isDir

/-- The lines that are kept of a path list that has been placed, where `room` says for
    which size of the result there is room. -/
def keep (seen : Seen) (room : Nat → Bool) (text : String) : Except Error (List String) :=
  match seen with
  | .foreign => .error .invalidHandle
  | .missing => .error .handleNotFound
  | .found rs =>
    match rs.keptLines? text with
    | none => .error (broken .batchFilter (.unrooted .batchFilter))
    | some [] => .ok []
    | some kept =>
      if !room (Text.Utf8.encode (Text.unlines kept)).length then
        .error (broken .batchFilter .resultExhausted)
      else .ok kept

/-- The lines that are kept of a path list, where `room` says for which sizes there is
    room. -/
def filter (seen : Seen) (room : List Nat → Bool) (paths : List String) :
    Except Error (List String) :=
  let size := (Text.Utf8.encode (Text.unlines paths)).length
  if paths.isEmpty then .ok []
  else if !room [size] then .error (.allocationFailed size)
  else if !room [size, descriptorSize] then .error (.allocationFailed descriptorSize)
  else seen.keep (fun result => room [size, descriptorSize, result]) (Text.unlines paths)

end Seen

/-! ## Numbers of the guest in the words of the host -/

theorem countOfCode_ofWord {n : Nat} (h : n < 0x80000000) : countOfCode (ofWord n) = .ok n := by
  have hneg : ¬ ofWord n < 0 := not_ofWord_neg h
  have hne : ∀ c : Int32, c < 0 → ¬ ofWord n = c := by
    intro c hc heq
    subst heq
    exact hneg hc
  unfold countOfCode
  rw [if_neg (hne _ (by decide)), if_neg (hne _ (by decide)), if_neg (hne _ (by decide)),
    if_neg (hne _ (by decide)), if_neg (hne _ (by decide)), if_neg hneg, toInt_ofWord h]
  rfl

theorem verdictOfCode_code (v : Verdict) : verdictOfCode v.code = .ok v := by
  rw [verdictOfCode, Verdict.ofCode?_code]

theorem handleOfCode_ofWord {n : Nat} (hpos : 0 < n) (h : n < 0x80000000) (id : Nat) :
    handleOfCode id (ofWord n) = .ok ⟨id, ofWord n⟩ := by
  have hp := ofWord_pos hpos h
  have hne : ∀ c : Int32, c < 0 → ¬ ofWord n = c := by
    intro c hc heq
    subst heq
    exact not_ofWord_neg h hc
  unfold handleOfCode Handle.ofCode?
  rw [decide_eq_false (hne (-1) (by decide)), decide_eq_false (hne (-2) (by decide)),
    if_neg (by decide), if_neg (hne (-3) (by decide)), if_pos hp]

variable {inst : Instance Guest}

/-! ## Compiling -/

/-- The handle under which an instance puts its next rule set. -/
def nextHandle (inst : Instance Guest) (rs : RuleSet) : Handle :=
  ⟨inst.id, ofWord (inst.guest.rules.insert rs).1⟩

/-- The rule table after an attempt to compile. -/
def rulesAfter (inst : Instance Guest) : Except Error RuleSet → RuleTable
  | .ok rs => (inst.guest.rules.insert rs).2
  | .error _ => inst.guest.rules

theorem perform_compile (hs : inst.guest.Sound) (ht : inst.tainted = false) (rules : String) :
    ∃ done, (compile rules).perform inst =
        (((compileAnswer inst.guest.hasRoom rules).map inst.nextHandle).mapError .error, done) ∧
      inst.Leaves done (inst.rulesAfter (compileAnswer inst.guest.hasRoom rules)) false := by
  unfold compile compileAnswer
  rw [hasRoom_singleton, perform_bind]
  cases htake : inst.guest.take? (Text.Utf8.encode rules).length with
  | none =>
    rw [perform_withBuffer_none ht htake]
    exact ⟨inst, rfl, .refl ht⟩
  | some r =>
    obtain ⟨ptr, g⟩ := r
    have hg := hs.take? htake
    have hcreate := hg.held.createMatcher
    have hrules : (g.holding ptr (Text.Utf8.encode rules)).rules = inst.guest.rules :=
      hg.rules_eq
    have hcall := @perform_call _ _ (inst.withGuest (g.holding ptr (Text.Utf8.encode rules)))
      ht .createMatcher fun g =>
        Backend.createMatcher g (ofWord ptr) (ofWord (Text.Utf8.encode rules).length)
    simp only [Backend.createMatcher, withGuest_guest, hcreate, hrules] at hcall
    simp only [Option.isSome_some, Bool.not_true, Bool.false_eq_true, if_false]
    cases htext : RuleSet.ofText? (Text.Utf8.encode rules) with
    | none =>
      simp only [htext, settle] at hcall
      obtain ⟨done, hdone, hleaves⟩ := perform_withBuffer hs ht htake
        (fun text => createMatcher text.ptr text.len) hcall (.refl ht)
      rw [hdone]
      rw [withGuest_guest, hrules] at hleaves
      exact ⟨done, rfl, hleaves⟩
    | some rs =>
      simp only [htext, settle] at hcall
      have hbounds := hs.rules.handle_bounds rs
      simp only [RuleTable.maxHandle] at hbounds
      obtain ⟨done, hdone, hleaves⟩ := perform_withBuffer hs ht htake
        (fun text => createMatcher text.ptr text.len) hcall
        ⟨rfl, rfl, rfl, ht, fun _ => rfl, rfl, .refl _⟩
      rw [hdone]
      refine ⟨done, ?_, hleaves⟩
      simp only [perform_bind, perform_get, perform_give, hleaves.id_eq]
      rw [handleOfCode_ofWord hbounds.1 (by omega)]
      rfl

theorem perform_destroy (ht : inst.tainted = false) {h : Handle}
    (hown : h.instanceId = inst.id) :
    (destroy h).perform inst =
      (.ok (), inst.withGuest (inst.guest.destroyMatcher h.raw)) := by
  unfold destroy destroyMatcher
  rw [perform_bind, perform_rawOf, if_pos hown]
  simp only [perform_call ht, Backend.destroyMatcher]
  rfl

/-! ## Asking -/

theorem isDir_ne_zero (isDir : Bool) : ((if isDir then 1 else 0 : Int32) != 0) = isDir := by
  cases isDir <;> rfl

/-- What comes of asking about a path that has been placed. -/
theorem perform_isMatch (ht : inst.tainted = false) {ptr : Nat} {path : List UInt8}
    (hheld : inst.guest.Held ptr path) (h : Handle) (isDir : Bool) :
    ∃ (result : Except Error Int32) (done : Instance Guest),
      (isMatch h (Span.ofNat ptr path.length).ptr (Span.ofNat ptr path.length).len isDir).perform
        inst = (result.mapError .error, done) ∧
      result.bind verdictOfCode = (inst.look h).verdict path isDir ∧
      inst.Leaves done inst.guest.rules (breaks ((inst.look h).verdict path isDir)) := by
  unfold isMatch look
  rw [perform_bind, perform_rawOf]
  by_cases hown : h.instanceId = inst.id
  · have hmatch := hheld.isMatch h.raw (if isDir then 1 else 0)
    simp only [hown, if_true, perform_call ht, Backend.isMatch, Span.ofNat, toInt32_ofNat, hmatch,
      isDir_ne_zero, ne_eq, not_true_eq_false, decide_false, Bool.false_or, decide_eq_true_eq]
    by_cases hraw : h.raw ≤ 0
    · simp only [if_pos hraw]
      exact ⟨.ok (-1), inst, rfl, rfl, .refl ht⟩
    simp only [if_neg hraw]
    cases inst.guest.rules.get? (word h.raw) with
    | none =>
      unfold Seen.verdict
      by_cases hutf8 : (Text.Utf8.decode? path).isNone = true
      · simp only [if_pos hutf8]
        exact ⟨.ok (-3), inst, rfl, rfl, .refl ht⟩
      · simp only [if_neg hutf8]
        exact ⟨.ok (-4), inst, rfl, rfl, .refl ht⟩
    | some rs =>
      unfold Seen.verdict
      by_cases hutf8 : (Text.Utf8.decode? path).isNone = true
      · simp only [if_pos hutf8]
        exact ⟨.ok (-3), inst, rfl, rfl, .refl ht⟩
      simp only [if_neg hutf8]
      cases hv : rs.verdict? path isDir with
      | none => exact ⟨.error _, inst.taint, rfl, rfl, .taint⟩
      | some v => exact ⟨.ok v.code, inst, rfl, verdictOfCode_code v, .refl ht⟩
  · simp only [ne_eq, hown, not_false_eq_true, decide_true, Bool.true_or, if_true]
    exact ⟨.error _, inst, rfl, rfl, .refl ht⟩

theorem look_withGuest {g : Guest} (hrules : g.rules = inst.guest.rules) (h : Handle) :
    (inst.withGuest g).look h = inst.look h := by
  unfold look
  rw [withGuest_guest, hrules]
  rfl

theorem perform_ask (hs : inst.guest.Sound) (ht : inst.tainted = false) (h : Handle)
    (path : List UInt8) (isDir : Bool) :
    ∃ done, (ask h path isDir).perform inst =
        (((inst.look h).ask inst.guest.hasRoom path isDir).mapError .error, done) ∧
      inst.Leaves done inst.guest.rules
        (breaks ((inst.look h).ask inst.guest.hasRoom path isDir)) := by
  unfold ask Seen.ask
  rw [hasRoom_singleton, perform_bind]
  cases htake : inst.guest.take? path.length with
  | none =>
    rw [perform_withBuffer_none ht htake]
    exact ⟨inst, rfl, .refl ht⟩
  | some r =>
    obtain ⟨ptr, g⟩ := r
    have hg := hs.take? htake
    have hrules : (g.holding ptr path).rules = inst.guest.rules := hg.rules_eq
    obtain ⟨result, done, hmatch, hanswer, hleaves⟩ :=
      @perform_isMatch (inst.withGuest (g.holding ptr path)) ht _ _ hg.held h isDir
    rw [look_withGuest hrules] at hanswer hleaves
    obtain ⟨done', hdone, hleaves⟩ := perform_withBuffer hs ht htake
      (fun text => isMatch h text.ptr text.len isDir) hmatch hleaves
    rw [hdone]
    simp only [Option.isSome_some, Bool.not_true, Bool.false_eq_true, if_false]
    refine ⟨done', ?_, hrules ▸ hleaves⟩
    rw [← hanswer]
    cases result with
    | error e => rfl
    | ok code => exact perform_give ..

/-! ## Filtering -/

/-- There is room for a descriptor at a place, and no block is handed out over it. -/
structure Describable (g : Guest) (info : Nat) : Prop where
  pos : 0 < info
  lt : info < 0x100000000
  inside : info + descriptorSize ≤ g.memory.size
  live : ∃ b ∈ g.heap.live, b.offset = info ∧ descriptorSize ≤ b.size

/-- Bytes that have been placed can be read. -/
theorem perform_readBytes {ptr : Nat} {bytes : List UInt8} (h : inst.guest.Held ptr bytes) :
    (readBytes (.ofNat ptr bytes.length)).perform inst = (.ok bytes, inst) := by
  unfold readBytes
  rw [perform_ite, Span.isNull_ofNat h.ptr_lt h.length_lt']
  by_cases hlen : bytes.length = 0
  · rw [if_pos (by simp [hlen]), List.length_eq_zero_iff.mp hlen, perform_pure]
  have hptr := Nat.pos_iff_ne_zero.mp (h.ptr_pos (Nat.pos_of_ne_zero hlen))
  rw [if_neg (by simp [hlen, hptr])]
  rcases h.holds with hnil | ⟨hin, hload⟩
  · exact absurd (congrArg List.length hnil) hlen
  have hin' : ptr + bytes.length ≤ inst.memorySize := hin
  simp only [Span.ofNat, UInt32.toNat_ofNat_of_lt' h.ptr_lt,
    UInt32.toNat_ofNat_of_lt' h.length_lt', perform_bind, perform_get,
    if_neg (Nat.not_lt.mpr hin'), perform_load hin']
  exact congrArg (fun bs => (Except.ok bs, inst)) hload

/-- A result that the guest has described is fetched and given back. -/
theorem perform_fetchResult (ht : inst.tainted = false) {g g' : Guest} {ptr info : Nat}
    {text : String} (htaken : Taken g (Text.Utf8.encode text).length ptr g')
    (hpos : 0 < (Text.Utf8.encode text).length) (hinfo : Describable g info)
    (hguest : inst.guest = g'.described ptr (Text.Utf8.encode text) info) (count : Nat) :
    (fetchResult count (.ofNat info descriptorSize)).perform inst =
      (.ok (Text.lines text), inst.withGuest (inst.guest.withHeap g.heap)) := by
  generalize hbytes : Text.Utf8.encode text = bytes at *
  obtain ⟨b, hb, hoff, hsz⟩ := hinfo.live
  have hapart := htaken.apart b hb
  simp only [Block.stop, descriptorSize] at hapart hsz
  have hin : info + 8 ≤ g'.memory.size := Nat.le_trans hinfo.inside htaken.later.size_le
  have hheld : inst.guest.Held ptr bytes := by
    have := htaken.held
    rw [hguest]
    refine ⟨this.holds.store ?_, this.length_lt, this.ptr_lt, this.ptr_pos⟩
    simp only [List.length_append, length_wordBytes]
    omega
  have hdesc : inst.guest.Held info (wordBytes ptr ++ wordBytes bytes.length) := by
    rw [hguest]
    exact ⟨Memory.holds_store hin, (show 8 < 0x80000000 by decide), hinfo.lt, fun _ => hinfo.pos⟩
  have hread := perform_readBytes hdesc
  simp only [List.length_append, length_wordBytes] at hread
  have hspan : ((spanOf (wordBytes ptr ++ wordBytes bytes.length)).perform inst) =
      (.ok (.ofNat ptr bytes.length), inst) := by
    simp only [wordBytes, List.cons_append, List.nil_append, spanOf, perform_pure,
      wordOf_wordBytes hheld.ptr_lt, wordOf_wordBytes hheld.length_lt']
    rfl
  have hptr := Nat.pos_iff_ne_zero.mp (hheld.ptr_pos hpos)
  have hheap : inst.guest.heap = g'.heap := by rw [hguest]; rfl
  unfold fetchResult descriptorSize
  simp only [perform_bind, hread, hspan, perform_ite,
    Span.isNull_ofNat hheld.ptr_lt hheld.length_lt']
  rw [if_neg (by simp [hptr, Nat.pos_iff_ne_zero.mp hpos])]
  simp only [perform_ensuring, perform_readBytes hheld,
    perform_freeBytes htaken ht hheap, endWith_ok]
  rw [← hbytes, Text.Utf8.decode?_encode]
  rfl

/-- An instance is left as it was when a described result has been fetched from it. -/
theorem perform_fetchDescribed (ht : inst.tainted = false) {g' : Guest} {ptr info : Nat}
    {text : String} (htaken : Taken inst.guest (Text.Utf8.encode text).length ptr g')
    (hpos : 0 < (Text.Utf8.encode text).length) (hinfo : Describable inst.guest info)
    (count : Nat) :
    ∃ done,
      (fetchResult count (.ofNat info descriptorSize)).perform
          (inst.withGuest (g'.described ptr (Text.Utf8.encode text) info)) =
        (.ok (Text.lines text), done) ∧
      inst.Leaves done inst.guest.rules false := by
  have hfetch := @perform_fetchResult
    (inst.withGuest (g'.described ptr (Text.Utf8.encode text) info))
    ht _ _ _ _ _ htaken hpos hinfo rfl count
  refine ⟨_, hfetch, ?_⟩
  refine ⟨rfl, rfl, rfl, ht, fun _ => rfl, htaken.rules_eq, ?_⟩
  exact htaken.later.trans ((Memory.Later.store ..).trans (.store ..))

/-- What comes of filtering a path list that has been placed. -/
theorem perform_filterPlaced (hs : inst.guest.Sound) (ht : inst.tainted = false) {ptr info : Nat}
    {text : String} (hheld : inst.guest.Held ptr (Text.Utf8.encode text))
    (hinfo : Describable inst.guest info) (h : Handle) :
    ∃ done,
      (filterPlaced h (.ofNat ptr (Text.Utf8.encode text).length)
        (.ofNat info descriptorSize)).perform inst =
        (((inst.look h).keep (fun size => inst.guest.hasRoom [size]) text).mapError .error,
          done) ∧
      inst.Leaves done inst.guest.rules
        (breaks ((inst.look h).keep (fun size => inst.guest.hasRoom [size]) text)) := by
  unfold filterPlaced batchFilter look
  simp only [perform_bind, perform_rawOf]
  by_cases hown : h.instanceId = inst.id
  · have hbatch := hheld.batchFilter hs hinfo.pos hinfo.lt hinfo.inside h.raw
    simp only [hown, if_true, perform_call ht, Backend.batchFilter, Span.ofNat, toInt32_ofNat,
      hbatch, ne_eq, not_true_eq_false, decide_false, Bool.false_or, decide_eq_true_eq]
    by_cases hraw : h.raw ≤ 0
    · simp only [if_pos hraw]
      exact ⟨inst, rfl, .refl ht⟩
    simp only [if_neg hraw]
    cases inst.guest.rules.get? (word h.raw) with
    | none => exact ⟨inst, rfl, .refl ht⟩
    | some rs =>
      simp only [Seen.keep]
      cases hkept : rs.keptLines? text with
      | none => exact ⟨inst.taint, rfl, .taint⟩
      | some kept =>
        cases kept with
        | nil => exact ⟨_, rfl, rfl, rfl, rfl, ht, fun _ => rfl, rfl, .store ..⟩
        | cons l ls =>
          simp only [hasRoom_singleton]
          cases htake : inst.guest.take? (Text.Utf8.encode (Text.unlines (l :: ls))).length with
          | none => exact ⟨inst.taint, rfl, .taint⟩
          | some r =>
            obtain ⟨ptr', g'⟩ := r
            have htaken := hs.take? htake
            obtain ⟨hpos, -, hcount, hlines⟩ := RuleSet.bounds_of_keptLines? hkept
            have hlt : (l :: ls).length < 0x80000000 :=
              Nat.lt_of_le_of_lt hcount hheld.length_lt
            obtain ⟨done, hfetch, hleaves⟩ := perform_fetchDescribed ht htaken hpos hinfo
              (l :: ls).length
            rw [hlines] at hfetch
            have hne : ¬ (l :: ls).length = 0 := Nat.succ_ne_zero ls.length
            simp only [Reply.ofExcept, perform_give, countOfCode_ofWord hlt, Except.mapError,
              if_neg hne, Option.isSome_some, Bool.not_true, Bool.false_eq_true, if_false]
            exact ⟨done, hfetch, hleaves⟩
  · simp only [ne_eq, hown, not_false_eq_true, decide_true, Bool.true_or, if_true]
    exact ⟨inst, rfl, .refl ht⟩

/-- The same with room for a descriptor that has still to be placed. -/
theorem perform_filterDescribed (hs : inst.guest.Sound) (ht : inst.tainted = false)
    {outer g : Guest} {ptr : Nat} {text : String}
    (hg : Taken outer (Text.Utf8.encode text).length ptr g)
    (hguest : inst.guest = g.holding ptr (Text.Utf8.encode text)) (h : Handle) :
    let answer :=
      if !g.hasRoom [descriptorSize] then .error (.allocationFailed descriptorSize)
      else (inst.look h).keep (fun size => g.hasRoom [descriptorSize, size]) text
    ∃ done,
      (withBuffer (List.replicate descriptorSize 0)
        (filterPlaced h (.ofNat ptr (Text.Utf8.encode text).length))).perform inst =
        (answer.mapError .error, done) ∧
      inst.Leaves done inst.guest.rules (breaks answer) := by
  intro answer
  have hzeros : (List.replicate descriptorSize (0 : UInt8)).length = descriptorSize :=
    List.length_replicate
  have hroom : ∀ sizes, g.hasRoom sizes = inst.guest.hasRoom sizes := fun sizes => by
    rw [hguest, hasRoom_holding]
  cases htake : inst.guest.take? descriptorSize with
  | none =>
    have hanswer : answer = .error (.allocationFailed descriptorSize) := by
      simp only [answer, hroom, hasRoom_cons_of_none htake, Bool.not_false, if_true]
    rw [perform_withBuffer_none ht (hzeros ▸ htake), hanswer]
    exact ⟨inst, rfl, .refl ht⟩
  | some r =>
    obtain ⟨info, g'⟩ := r
    have htaken := hs.take? htake
    have hheld : (g'.holding info (List.replicate descriptorSize 0)).Held ptr
        (Text.Utf8.encode text) := hg.held_holding (hguest ▸ hzeros ▸ htaken)
    have hinfo : Describable (g'.holding info (List.replicate descriptorSize 0)) info :=
      ⟨htaken.ptr_pos (by decide), htaken.ptr_lt, htaken.inside, htaken.live (by decide)⟩
    obtain ⟨done, hplaced, hleaves⟩ := @perform_filterPlaced
      (inst.withGuest (g'.holding info (List.replicate descriptorSize 0)))
      (htaken.sound.store _ _) ht _ _ _ hheld hinfo h
    have hanswer : answer =
        ((inst.withGuest (g'.holding info (List.replicate descriptorSize 0))).look h).keep
          (fun size => (g'.holding info (List.replicate descriptorSize 0)).hasRoom [size])
          text := by
      rw [look_withGuest (by rw [holding_rules, htaken.rules_eq])]
      simp only [answer, hroom, hasRoom_cons_of_some htake, hasRoom_holding]
      rfl
    rw [withGuest_guest, ← hanswer] at hplaced hleaves
    rw [holding_rules, htaken.rules_eq] at hleaves
    rw [← hzeros] at htake hplaced hleaves
    exact perform_withBuffer hs ht htake _ hplaced hleaves

theorem perform_filter (hs : inst.guest.Sound) (ht : inst.tainted = false) (h : Handle)
    (paths : List String) :
    ∃ done, (filter h paths).perform inst =
        (((inst.look h).filter inst.guest.hasRoom paths).mapError .error, done) ∧
      inst.Leaves done inst.guest.rules
        (breaks ((inst.look h).filter inst.guest.hasRoom paths)) := by
  rw [filter_eq]
  unfold Seen.filter
  by_cases hempty : paths.isEmpty = true
  · simp only [if_pos hempty]
    exact ⟨inst, rfl, .refl ht⟩
  simp only [if_neg hempty]
  cases htake : inst.guest.take? (Text.Utf8.encode (Text.unlines paths)).length with
  | none =>
    rw [perform_withBuffer_none ht htake]
    simp only [hasRoom_cons_of_none htake, Bool.not_false, if_true]
    exact ⟨inst, rfl, .refl ht⟩
  | some r =>
    obtain ⟨ptr, g⟩ := r
    have hg := hs.take? htake
    obtain ⟨done, hdescribed, hleaves⟩ := @perform_filterDescribed
      (inst.withGuest (g.holding ptr (Text.Utf8.encode (Text.unlines paths))))
      (hg.sound.store _ _) ht _ _ _ _ hg rfl h
    rw [look_withGuest (by rw [holding_rules, hg.rules_eq])] at hdescribed hleaves
    rw [withGuest_guest, holding_rules, hg.rules_eq] at hleaves
    simp only [hasRoom_cons_of_some htake]
    exact perform_withBuffer hs ht htake _ hdescribed hleaves

end PathSieve.Instance

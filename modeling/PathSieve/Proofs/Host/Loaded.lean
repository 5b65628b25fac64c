/-
  Instances as matchers use them.

  An instance that waits in a pool is blank: nothing is handed out, nothing is compiled.
  Compiling makes it loaded with one rule set, asking and filtering leave it loaded, and
  forgetting the rule set makes it blank again, unless the guest has broken down on the way
  and the instance is tainted. What it answers hangs on nothing but the ceiling of its
  memory and the rule set (`perform_compile_blank`, `perform_ask_loaded`,
  `perform_filter_loaded`), and a tainted instance does not even look at these.
-/
import PathSieve.Proofs.Host.Answers
import PathSieve.Proofs.Host.Touch

namespace PathSieve.Instance

open Guest PathSieve.Action

variable {α : Type} {inst done : Instance Guest} {poolId maxPages : Nat} {h : Handle} {rs : RuleSet}

/-- Does an instance belong to a pool whose memories have a given ceiling? -/
structure Suits (inst : Instance Guest) (poolId maxPages : Nat) : Prop where
  poolId_eq : inst.poolId = poolId
  sound : inst.guest.Sound
  maxPages_eq : inst.guest.memory.maxPages = maxPages
  pages_le : inst.guest.memory.pages ≤ maxPages
  one_le : 1 ≤ maxPages

/-- Nothing is handed out and nothing is compiled. -/
structure Blank (inst : Instance Guest) : Prop where
  tainted_eq : inst.tainted = false
  heap_eq : inst.guest.heap = Heap.empty
  entries_eq : inst.guest.rules.entries = []

/-- Nothing is handed out, and one rule set is compiled. -/
structure Loaded (inst : Instance Guest) (h : Handle) (rs : RuleSet) : Prop where
  tainted_eq : inst.tainted = false
  heap_eq : inst.guest.heap = Heap.empty
  own : h.instanceId = inst.id
  pos : 0 < h.raw
  entries_eq : inst.guest.rules.entries = [(word h.raw, rs)]

/-- The room on an empty heap under a ceiling of the memory. -/
def roomUnder (maxPages : Nat) (sizes : List Nat) : Bool :=
  Heap.fits (Heap.limit maxPages) Heap.base sizes

namespace Suits

theorem leaves (hs : inst.Suits poolId maxPages) {rules : RuleTable} {broken : Bool}
    (hl : inst.Leaves done rules broken) (hsound : done.guest.Sound) :
    done.Suits poolId maxPages := by
  have hmax := hl.later.maxPages_eq
  have hle := hl.later.pages_le_max
  have := hs.pages_le
  have heq := hs.maxPages_eq
  exact ⟨hl.poolId_eq.trans hs.poolId_eq, hsound, hmax.trans heq, by omega, hs.one_le⟩

/-- On an empty heap the ceiling says what there is room for. -/
theorem hasRoom_eq (hs : inst.Suits poolId maxPages) (hheap : inst.guest.heap = Heap.empty) :
    inst.guest.hasRoom = roomUnder maxPages := by
  funext sizes
  have hstacked : inst.guest.Stacked (Heap.limit maxPages) Heap.base := by
    refine ⟨?_, ?_, ?_, ?_⟩
    · rw [hheap]
      rfl
    · rw [hheap]
      rfl
    · rw [hs.maxPages_eq]
      exact hs.pages_le
    · rw [hs.maxPages_eq]
  refine hstacked.hasRoom_eq ?_ sizes
  have := hs.one_le
  simp only [Heap.base, Heap.limit, Heap.lastPlace, pageSize]
  omega

end Suits

namespace Loaded

theorem look_eq (hl : inst.Loaded h rs) : inst.look h = .found rs := by
  have hget : inst.guest.rules.get? (word h.raw) = some rs := by
    unfold RuleTable.get?
    rw [hl.entries_eq]
    simp
  rw [look_of_eq hl.own.symm hl.pos, hget]
  rfl

/-- What leaves the rules alone leaves the instance loaded, unless the guest breaks down. -/
theorem leaves (hl : inst.Loaded h rs) (hleaves : inst.Leaves done inst.guest.rules false) :
    done.Loaded h rs :=
  ⟨hleaves.tainted_eq, (hleaves.heap_eq rfl).trans hl.heap_eq, hl.own.trans hleaves.id_eq.symm,
    hl.pos, hleaves.rules_eq ▸ hl.entries_eq⟩

end Loaded

/-- The state of an instance after an answer: loaded, or tainted by a broken call. -/
structure Used (inst done : Instance Guest) (h : Handle) (rs : RuleSet) (broken : Bool) :
    Prop where
  id_eq : done.id = inst.id
  tainted_eq : done.tainted = broken
  loaded : broken = false → done.Loaded h rs

theorem Loaded.used (hl : inst.Loaded h rs) {broken : Bool}
    (hleaves : inst.Leaves done inst.guest.rules broken) : inst.Used done h rs broken := by
  refine ⟨hleaves.id_eq, hleaves.tainted_eq, ?_⟩
  intro heq
  subst heq
  exact hl.leaves hleaves

theorem perform_ask_loaded (hs : inst.Suits poolId maxPages) (hl : inst.Loaded h rs)
    (path : List UInt8) (isDir : Bool) :
    ∃ done, (ask h path isDir).perform inst =
        (((Seen.found rs).ask (roomUnder maxPages) path isDir).mapError .error, done) ∧
      done.Suits poolId maxPages ∧
      inst.Used done h rs (breaks ((Seen.found rs).ask (roomUnder maxPages) path isDir)) := by
  obtain ⟨done, hdone, hleaves⟩ := perform_ask hs.sound hl.tainted_eq h path isDir
  have hsound := invariant_sound.ask h path isDir inst hs.sound
  rw [hdone] at hsound
  rw [hs.hasRoom_eq hl.heap_eq, hl.look_eq] at hdone hleaves
  exact ⟨done, hdone, hs.leaves hleaves hsound, hl.used hleaves⟩

theorem perform_filter_loaded (hs : inst.Suits poolId maxPages) (hl : inst.Loaded h rs)
    (paths : List String) :
    ∃ done, (filter h paths).perform inst =
        (((Seen.found rs).filter (roomUnder maxPages) paths).mapError .error, done) ∧
      done.Suits poolId maxPages ∧
      inst.Used done h rs (breaks ((Seen.found rs).filter (roomUnder maxPages) paths)) := by
  obtain ⟨done, hdone, hleaves⟩ := perform_filter hs.sound hl.tainted_eq h paths
  have hsound := invariant_sound.filter h paths inst hs.sound
  rw [hdone] at hsound
  rw [hs.hasRoom_eq hl.heap_eq, hl.look_eq] at hdone hleaves
  exact ⟨done, hdone, hs.leaves hleaves hsound, hl.used hleaves⟩

/-- Compiling on a blank instance loads it or leaves it blank. -/
theorem perform_compile_blank (hs : inst.Suits poolId maxPages) (hb : inst.Blank)
    (rules : String) :
    ∃ done, done.Suits poolId maxPages ∧
      match compileAnswer (roomUnder maxPages) rules with
      | .error e => (compile rules).perform inst = (.error (.error e), done) ∧ done.Blank
      | .ok rs =>
        ∃ h, (compile rules).perform inst = (.ok h, done) ∧ done.Loaded h rs := by
  obtain ⟨done, hdone, hleaves⟩ := perform_compile hs.sound hb.tainted_eq rules
  have hsound := invariant_sound.compile rules inst hs.sound
  rw [hdone] at hsound
  rw [hs.hasRoom_eq hb.heap_eq] at hdone hleaves
  refine ⟨done, hs.leaves hleaves hsound, ?_⟩
  cases hanswer : compileAnswer (roomUnder maxPages) rules with
  | error e =>
    rw [hanswer] at hdone hleaves
    exact ⟨hdone, hleaves.tainted_eq, (hleaves.heap_eq rfl).trans hb.heap_eq,
      hleaves.rules_eq ▸ hb.entries_eq⟩
  | ok rs =>
    rw [hanswer] at hdone hleaves
    have hbounds := hs.sound.rules.handle_bounds rs
    simp only [RuleTable.maxHandle] at hbounds
    refine ⟨inst.nextHandle rs, hdone, hleaves.tainted_eq,
      (hleaves.heap_eq rfl).trans hb.heap_eq, hleaves.id_eq.symm,
      ofWord_pos hbounds.1 (by omega), ?_⟩
    rw [hleaves.rules_eq]
    show (inst.guest.rules.insert rs).2.entries =
      [(word (ofWord (inst.guest.rules.insert rs).1), rs)]
    rw [RuleTable.entries_insert, hb.entries_eq, word_ofWord (by omega)]

/-- Forgetting the rule set makes a loaded instance blank. -/
theorem perform_destroy_loaded (hs : inst.Suits poolId maxPages) (hl : inst.Loaded h rs) :
    ∃ done, (destroy h).quietly.perform inst = (.ok (), done) ∧
      done.Suits poolId maxPages ∧ done.Blank := by
  have hsound := invariant_sound.destroy h inst hs.sound
  rw [perform_destroy hl.tainted_eq hl.own] at hsound
  rw [perform_quietly, perform_destroy hl.tainted_eq hl.own]
  have hheap : (inst.guest.destroyMatcher h.raw).heap = inst.guest.heap := by
    unfold Guest.destroyMatcher
    split <;> rfl
  have hmemory : (inst.guest.destroyMatcher h.raw).memory = inst.guest.memory := by
    unfold Guest.destroyMatcher
    split <;> rfl
  have hentries : (inst.guest.destroyMatcher h.raw).rules.entries = [] := by
    unfold Guest.destroyMatcher
    rw [if_pos hl.pos]
    show inst.guest.rules.entries.filter _ = []
    rw [hl.entries_eq]
    simp
  refine ⟨_, rfl, ⟨hs.poolId_eq, hsound, ?_, ?_, hs.one_le⟩, hl.tainted_eq, ?_, hentries⟩
  · rw [withGuest_guest, hmemory, hs.maxPages_eq]
  · rw [withGuest_guest, hmemory]
    exact hs.pages_le
  · rw [withGuest_guest, hheap, hl.heap_eq]

/-! ## Tainted instances -/

theorem perform_destroy_tainted {σ : Type} [Backend σ] {inst : Instance σ}
    (ht : inst.tainted = true) (h : Handle) :
    (destroy h).quietly.perform inst = (.ok (), inst) := by
  unfold destroy destroyMatcher
  rw [perform_quietly, perform_bind, perform_rawOf]
  by_cases hown : h.instanceId = inst.id
  · simp only [if_pos hown, perform_call_of_tainted ht]
  · simp only [if_neg hown]

/-- How placing bytes fails on a tainted instance of a given name. -/
def refusal (name : String) (size : Nat) : Error :=
  if maxAllocation < size then .allocationFailed size else .transport .alloc (.tainted name)

/-- How asking fails on a tainted instance of a given name. -/
def askRefusal (name : String) (path : List UInt8) : Error :=
  if path.isEmpty then .transport .isMatch (.tainted name) else refusal name path.length

/-- What filtering comes to on a tainted instance of a given name. -/
def filterRefusal (name : String) (paths : List String) : Except Error (List String) :=
  if paths.isEmpty then .ok []
  else .error (refusal name (Text.Utf8.encode (Text.unlines paths)).length)

section Tainted

variable {σ : Type} [Backend σ] {inst : Instance σ}

theorem perform_writeBytes_tainted (ht : inst.tainted = true) {bytes : List UInt8}
    (hne : bytes ≠ []) :
    (writeBytes bytes).perform inst = (.error (.error (refusal inst.name bytes.length)), inst) := by
  unfold writeBytes refusal
  rw [if_neg (by simpa using hne), perform_bind]
  unfold alloc
  by_cases hmax : maxAllocation < bytes.length
  · simp only [if_pos hmax, perform_fail]
  · simp only [if_neg hmax, perform_bind, perform_call_of_tainted ht]

theorem perform_withBuffer_tainted (ht : inst.tainted = true) {bytes : List UInt8}
    (hne : bytes ≠ []) (body : Span → Action σ α) :
    (withBuffer bytes body).perform inst =
      (.error (.error (refusal inst.name bytes.length)), inst) := by
  unfold withBuffer
  rw [perform_bind, perform_writeBytes_tainted ht hne]

theorem perform_ask_tainted (ht : inst.tainted = true) (hown : h.instanceId = inst.id)
    (path : List UInt8) (isDir : Bool) :
    (ask h path isDir).perform inst = (.error (.error (askRefusal inst.name path)), inst) := by
  unfold ask askRefusal
  rw [perform_bind]
  by_cases hpath : path = []
  · subst hpath
    unfold withBuffer writeBytes isMatch
    simp only [List.isEmpty_nil, if_true, perform_bind, perform_pure, perform_ensuring,
      perform_rawOf, if_pos hown, perform_call_of_tainted ht, perform_freeBytes_of_tainted ht,
      endWith_ok]
  · rw [perform_withBuffer_tainted ht hpath]
    simp [hpath]

theorem perform_filter_tainted (ht : inst.tainted = true) (paths : List String) :
    (filter h paths).perform inst = ((filterRefusal inst.name paths).mapError .error, inst) := by
  unfold filter filterRefusal
  by_cases hpaths : paths.isEmpty = true
  · rw [if_pos hpaths, if_pos hpaths]
    rfl
  rw [if_neg hpaths, if_neg hpaths]
  by_cases hbytes : Text.Utf8.encode (Text.unlines paths) = []
  · -- nothing has to be placed for the text, so it is the descriptor that is refused
    have hzeros : List.replicate descriptorSize (0 : UInt8) ≠ [] := by decide
    rw [hbytes]
    unfold withBuffer
    rw [perform_bind]
    show ((withBuffer _ _).ensuring _).perform inst = _
    rw [perform_ensuring, perform_withBuffer_tainted ht hzeros, perform_freeBytes_of_tainted ht,
      endWith_ok]
    rfl
  · rw [perform_withBuffer_tainted ht hbytes]
    rfl

end Tainted

/-! ## Rule sets for the length of an action -/

/-- What comes of compiling rules for one filter. -/
def workAnswer (room : List Nat → Bool) (rules : String) (paths : List String) :
    Except Error (List String) :=
  (compileAnswer room rules).bind fun rs => (Seen.found rs).filter room paths

/-- A blank instance that has been used for one filter is blank again or tainted. -/
theorem perform_work (hs : inst.Suits poolId maxPages) (hb : inst.Blank) (rules : String)
    (paths : List String) :
    ∃ done, (withCompiled rules fun h => filter h paths).perform inst =
        ((workAnswer (roomUnder maxPages) rules paths).mapError .error, done) ∧
      done.Suits poolId maxPages ∧ (done.tainted = true ∨ done.Blank) := by
  obtain ⟨loaded, hsuits, hcompile⟩ := perform_compile_blank hs hb rules
  unfold withCompiled workAnswer
  rw [perform_bind]
  cases hanswer : compileAnswer (roomUnder maxPages) rules with
  | error e =>
    rw [hanswer] at hcompile
    rw [hcompile.1]
    exact ⟨loaded, rfl, hsuits, Or.inr hcompile.2⟩
  | ok rs =>
    rw [hanswer] at hcompile
    obtain ⟨h, hload, hloaded⟩ := hcompile
    obtain ⟨used, hfilter, hsuits', hused⟩ := perform_filter_loaded hsuits hloaded paths
    rw [hload]
    simp only [perform_ensuring, hfilter, Except.bind]
    cases hbreaks : breaks ((Seen.found rs).filter (roomUnder maxPages) paths) with
    | true =>
      have ht : used.tainted = true := hused.tainted_eq.trans hbreaks
      rw [perform_destroy_tainted ht, endWith_ok]
      exact ⟨used, rfl, hsuits', Or.inl ht⟩
    | false =>
      obtain ⟨done, hdestroy, hsuits'', hblank⟩ :=
        perform_destroy_loaded hsuits' (hused.loaded hbreaks)
      rw [hdestroy, endWith_ok]
      exact ⟨done, rfl, hsuits'', Or.inr hblank⟩

end PathSieve.Instance

/-
  What becomes of a rule table while its instance is used.

  Rule sets come and go with two calls only, so what a guest has been asked says what has
  become of its rule table (`Evolves`): a compile adds one rule set at most, and what is known
  of a handle stays known until the guest is asked to forget it.
-/
import PathSieve.Proofs.Host.InstanceOps
import PathSieve.Proofs.Host.Loaded
import PathSieve.Proofs.Sandbox.Drawn

namespace PathSieve

open Guest

namespace EntryCall

/-- Does a call compile a rule text? -/
def isCompile : EntryCall → Bool
  | .createMatcher _ _ => true
  | _ => false

end EntryCall

namespace Incident

/-- The calls among incidents. -/
def calls (past : List Incident) : List EntryCall :=
  past.filterMap fun
    | .crossed c => some c.call
    | .marked => none

/-- How often a rule text has been compiled, or an attempt made. -/
def compiles (past : List Incident) : Nat :=
  (calls past).countP EntryCall.isCompile

@[simp] theorem calls_append (past later : List Incident) :
    calls (past ++ later) = calls past ++ calls later :=
  List.filterMap_append

@[simp] theorem compiles_append (past later : List Incident) :
    compiles (past ++ later) = compiles past + compiles later := by
  rw [compiles, calls_append, List.countP_append, compiles, compiles]

end Incident

namespace RuleTable

/-- What can be told of a rule table when its guest has been asked some calls. -/
structure Evolves (t : RuleTable) (calls : List EntryCall) (t' : RuleTable) : Prop where
  size_le : t'.size ≤ t.size + calls.countP EntryCall.isCompile
  drawn : ∀ count, t.Drawn count → count + calls.countP EntryCall.isCompile < maxHandle →
    t'.Drawn (count + calls.countP EntryCall.isCompile)
  files : ∀ count raw entry, t.Drawn count →
    count + calls.countP EntryCall.isCompile < maxHandle → 0 < raw →
      t.Files (word raw) entry →
        t'.Files (word raw) (if .destroyMatcher raw ∈ calls then none else entry)

namespace Evolves

variable {t t' t'' : RuleTable} {calls calls' : List EntryCall}

theorem nil (t : RuleTable) : Evolves t [] t :=
  ⟨Nat.le_refl _, fun _ h _ => h, fun _ _ _ _ _ _ h => h⟩

theorem append (h : Evolves t calls t') (h' : Evolves t' calls' t'') :
    Evolves t (calls ++ calls') t'' := by
  have hcount : (calls ++ calls').countP EntryCall.isCompile =
      calls.countP EntryCall.isCompile + calls'.countP EntryCall.isCompile :=
    List.countP_append
  refine ⟨?_, fun count hd hlt => ?_, fun count raw entry hd hlt hpos hf => ?_⟩
  · have := h.size_le
    have := h'.size_le
    omega
  · rw [hcount, ← Nat.add_assoc] at hlt ⊢
    exact h'.drawn _ (h.drawn count hd (by omega)) hlt
  · rw [hcount, ← Nat.add_assoc] at hlt
    have hmid := h.files count raw entry hd (by omega) hpos hf
    have hend := h'.files _ raw _ (h.drawn count hd (by omega)) hlt hpos hmid
    by_cases hin : EntryCall.destroyMatcher raw ∈ calls
    · simpa [hin] using hend
    · simpa [hin] using hend

/-- A call that has nothing to do with rules. -/
theorem same (t : RuleTable) {c : EntryCall} (hdestroy : ∀ raw, 0 < raw → c ≠ .destroyMatcher raw) :
    Evolves t [c] t := by
  refine ⟨Nat.le_add_right _ _, fun count hd _ => hd.mono (Nat.le_add_right _ _),
    fun count raw entry _ _ hpos hf => ?_⟩
  rwa [if_neg fun hin => hdestroy raw hpos (List.mem_singleton.mp hin).symm]

theorem insert (t : RuleTable) (rs : RuleSet) (ptr len : Int32) :
    Evolves t [.createMatcher ptr len] (t.insert rs).2 := by
  refine ⟨Nat.le_refl _, fun count hd hlt => hd.insert hlt rs,
    fun count raw entry hd hlt _ hf => ?_⟩
  rw [if_neg (by simp)]
  exact hf.insert hd hlt rs

theorem erase (t : RuleTable) (raw : Int32) :
    Evolves t [.destroyMatcher raw] (t.erase (word raw)) := by
  refine ⟨List.length_filter_le _ _, fun count hd _ => hd.erase _,
    fun count other entry _ _ _ hf => ?_⟩
  have herase := hf.erase (word raw)
  simpa [word_inj, eq_comm] using herase

end Evolves

end RuleTable

namespace Guest

/-- A call changes the rule table of a guest by what it asks for, if at all. -/
theorem evolves_run (g : Guest) (c : EntryCall) : g.rules.Evolves [c] (c.run g).2.rules := by
  cases c with
  | alloc size =>
    have hrules : (g.alloc size).2.rules = g.rules := by
      rcases g.alloc_cases size with heq | ⟨ptr, heap, memory, -, heq⟩ <;> rw [heq]
    show g.rules.Evolves _ (g.alloc size).2.rules
    rw [hrules]
    exact .same _ (by simp)
  | dealloc ptr size =>
    show g.rules.Evolves _ (g.settle ((g.dealloc ptr size).map fun g => ((), g))).2.rules
    cases hd : g.dealloc ptr size with
    | error trap => exact .same _ (by simp)
    | ok g' =>
      have hrules : g'.rules = g.rules := by
        rcases dealloc_cases hd with rfl | ⟨heap, -, rfl⟩ <;> rfl
      simp only [Except.map, settle, hrules]
      exact .same _ (by simp)
  | createMatcher ptr len =>
    show g.rules.Evolves _ (g.settle (g.createMatcher ptr len)).2.rules
    cases hc : g.createMatcher ptr len with
    | error trap => exact .same _ (by simp)
    | ok r =>
      obtain ⟨code, g'⟩ := r
      rcases createMatcher_cases hc with rfl | ⟨rs, rfl⟩
      · exact .same _ (by simp)
      · exact .insert _ rs ptr len
  | destroyMatcher handle =>
    show g.rules.Evolves _ (g.destroyMatcher handle).rules
    unfold Guest.destroyMatcher
    split
    · exact .erase _ handle
    · next hpos =>
      refine .same _ fun raw hraw heq => ?_
      obtain rfl := EntryCall.destroyMatcher.inj heq
      exact hpos hraw
  | isMatch handle ptr len isDir => exact .same _ (by simp)
  | batchFilter handle ptr len info =>
    have hwrite {kept : List String} {ptr' len' : Nat} {g' : Guest}
        (hw : g.writeResult kept = .ok (ptr', len', g')) : g'.rules = g.rules := by
      rcases writeResult_cases hw with rfl | ⟨bytes, heap, memory, m, -, -, rfl⟩ <;> rfl
    have hrules : (g.batchFilter handle ptr len info).2.rules = g.rules := by
      rcases g.batchFilter_cases handle ptr len info with
        heq | ⟨kept, resultPtr, resultLen, g', hw, heq | ⟨m, -, heq⟩⟩ <;> rw [heq]
      · exact hwrite hw
      · exact (hwrite hw :)
    show g.rules.Evolves _ (g.batchFilter handle ptr len info).2.rules
    rw [hrules]
    exact .same _ (by simp)

end Guest

namespace Instance

open PathSieve.Action

variable {start inst done : Instance Guest} {past : List Incident} {handle : Handle}

theorem calls_incidents (inst : Instance Guest) (c : InstanceOp) :
    Incident.calls (inst.incidents c) = (inst.heard c).map Crossing.call := by
  unfold incidents
  rw [Incident.calls_append]
  cases c.isTaint <;> simp [Incident.calls, List.filterMap_map]

/-- The calls of an operation say what has become of the rule table. -/
theorem evolves_work (inst : Instance Guest) (c : InstanceOp) :
    inst.guest.rules.Evolves (Incident.calls (inst.incidents c)) (inst.work c).guest.rules := by
  rw [calls_incidents, work_eq_mapGuest]
  cases hc : c.isTaint with
  | true =>
    obtain rfl := InstanceOp.eq_of_isTaint hc
    rw [heard, work_touch]
    exact .nil _
  | false =>
    have hsteady : Steady fun i : Instance (Overheard Guest) =>
        inst.guest.rules.Evolves (i.guest.heard.map Crossing.call) i.guest.guest.rules := by
      refine steady_of_hears (fun i start bytes h => h) fun i c h _ => ?_
      rw [heard_hears, List.map_append]
      refine h.append ?_
      unfold hears
      rw [Overheard.run_eq]
      exact i.guest.guest.evolves_run c
    exact hsteady.work inst.overheard hc (.nil _)

theorem Trail.evolves (h : Trail start past inst) :
    start.guest.rules.Evolves (Incident.calls past) inst.guest.rules := by
  induction h with
  | nil => exact .nil _
  | snoc _ c ih =>
    rw [Incident.calls_append]
    exact ih.append (evolves_work _ c)

/-! ## Handles that come out of a compile -/

theorem perform_compile_tainted (ht : inst.tainted = true) (rules : String) :
    ∃ e, (compile rules).perform inst = (.error (.error e), inst) := by
  unfold compile
  rw [perform_bind]
  by_cases hrules : Text.Utf8.encode rules = []
  · rw [hrules]
    unfold withBuffer writeBytes createMatcher
    simp only [List.isEmpty_nil, if_true, perform_bind, perform_pure, perform_ensuring,
      perform_call_of_tainted ht, perform_freeBytes_of_tainted ht, endWith_ok]
    exact ⟨_, rfl⟩
  · rw [perform_withBuffer_tainted ht hrules]
    exact ⟨_, rfl⟩

/-- A compile that gives a handle has added the rule set of its text. -/
theorem rules_of_compile (hs : inst.guest.Sound) {rules : String}
    (h : ((compile rules).perform inst).1 = .ok handle) :
    ∃ rs, RuleSet.ofText? (Text.Utf8.encode rules) = some rs ∧ handle = inst.nextHandle rs ∧
      ((compile rules).perform inst).2.guest.rules = (inst.guest.rules.insert rs).2 := by
  cases ht : inst.tainted with
  | true =>
    obtain ⟨e, he⟩ := perform_compile_tainted ht rules
    rw [he] at h
    cases h
  | false =>
    obtain ⟨done, hdone, hleaves⟩ := perform_compile hs ht rules
    rw [hdone] at h ⊢
    cases hanswer : compileAnswer inst.guest.hasRoom rules with
    | error e =>
      rw [hanswer] at h
      cases h
    | ok rs =>
      rw [hanswer] at h hleaves
      exact ⟨rs, ofText?_of_compileAnswer hanswer, (Except.ok.inj h).symm, hleaves.rules_eq⟩

/-- The number of a handle is the one that the table has drawn. -/
theorem raw_nextHandle (hs : inst.guest.Sound) (rs : RuleSet) :
    0 < (inst.nextHandle rs).raw ∧
      word (inst.nextHandle rs).raw = (inst.guest.rules.insert rs).1 := by
  have hbounds := hs.rules.handle_bounds rs
  simp only [RuleTable.maxHandle] at hbounds
  exact ⟨ofWord_pos hbounds.1 (by omega), word_ofWord (by omega)⟩

/-! ## Questions under a handle -/

/-- Can bytes be placed in the memory, one after the other? -/
def CanPlace {σ : Type} [Backend σ] (inst : Instance σ) : List (List UInt8) → Prop
  | [] => True
  | bytes :: rest => ∃ s next, (writeBytes bytes).perform inst = (.ok s, next) ∧ next.CanPlace rest

theorem hasRoom_of_canPlace (hs : inst.guest.Sound) (ht : inst.tainted = false)
    {bufs : List (List UInt8)} (h : inst.CanPlace bufs) :
    inst.guest.hasRoom (bufs.map List.length) = true := by
  induction bufs generalizing inst with
  | nil => rfl
  | cons bytes rest ih =>
    obtain ⟨s, next, hwrite, hrest⟩ := h
    rw [List.map_cons]
    cases htake : inst.guest.take? bytes.length with
    | none =>
      rw [perform_writeBytes_none ht htake] at hwrite
      cases hwrite
    | some r =>
      obtain ⟨ptr, g⟩ := r
      rw [perform_writeBytes hs ht htake] at hwrite
      obtain ⟨-, rfl⟩ := Prod.mk.inj hwrite
      have hsound : (inst.withGuest (g.holding ptr bytes)).guest.Sound :=
        (hs.take? htake).sound.store ptr bytes
      have hroom := ih hsound ht hrest
      rw [hasRoom_cons_of_some htake]
      rwa [withGuest_guest, hasRoom_holding] at hroom

/-- Is this what comes of asking and filtering under a handle, where all can be placed that has
    to be, and the path is text? -/
structure Answers {σ : Type} [Backend σ] (inst : Instance σ) (handle : Handle)
    (verdict : List UInt8 → Bool → Except Error Verdict)
    (kept : List String → Except Error (List String)) : Prop where
  ask : ∀ path isDir, inst.CanPlace [path] → (Text.Utf8.decode? path).isSome = true →
    ((ask handle path isDir).perform inst).1 = (verdict path isDir).mapError .error
  filter : ∀ paths, paths ≠ [] →
    inst.CanPlace [Text.Utf8.encode (Text.unlines paths), List.replicate descriptorSize 0] →
      ((filter handle paths).perform inst).1 = (kept paths).mapError .error

/-- The room that is left for the result of a filter. -/
def resultRoom (inst : Instance Guest) (paths : List String) (size : Nat) : Bool :=
  inst.guest.hasRoom
    [(Text.Utf8.encode (Text.unlines paths)).length, descriptorSize, size]

/-- What an instance knows under a handle says what it answers. -/
theorem answers_look (hs : inst.guest.Sound) (ht : inst.tainted = false) (handle : Handle) :
    inst.Answers handle (inst.look handle).verdict
      fun paths => (inst.look handle).keep (inst.resultRoom paths) (Text.unlines paths) := by
  refine ⟨fun path isDir hplace _ => ?_, fun paths hne hplace => ?_⟩
  · obtain ⟨done, hdone, -⟩ := perform_ask hs ht handle path isDir
    have hroom := hasRoom_of_canPlace hs ht hplace
    rw [hdone, Seen.ask, if_neg (by simpa using hroom)]
  · obtain ⟨done, hdone, -⟩ := perform_filter hs ht handle paths
    have hroom := hasRoom_of_canPlace hs ht hplace
    obtain ⟨s, next, hwrite, -⟩ := hplace
    have hplace' : inst.CanPlace [Text.Utf8.encode (Text.unlines paths)] :=
      ⟨s, next, hwrite, trivial⟩
    have hroom' := hasRoom_of_canPlace hs ht hplace'
    simp only [List.map_cons, List.map_nil, List.length_replicate] at hroom hroom'
    simp only [hdone, Seen.filter, List.isEmpty_iff, hne, if_false, hroom, hroom', Bool.not_true,
      Bool.false_eq_true]
    rfl

/-- A handle of another instance leads to the memory and no further. -/
theorem heard_of_foreign {σ : Type} [Backend σ] {inst : Instance σ}
    (hforeign : handle.instanceId ≠ inst.id) :
    (∀ path isDir, ∀ x ∈ inst.heard (.call (.ask handle path isDir)), x.call.InMemory) ∧
      ∀ paths, ∀ x ∈ inst.heard (.call (.filter handle paths)), x.call.InMemory := by
  let P (i : Instance (Overheard σ)) : Prop :=
    i.id = inst.id ∧ ∀ x ∈ i.guest.heard, x.call.InMemory
  have hkept : KeptInMemory P := by
    refine keptInMemory_of_hears (fun i start bytes h => h) fun i c ⟨hid, hall⟩ hc => ⟨hid, ?_⟩
    rw [heard_hears]
    exact List.forall_mem_append.mpr ⟨hall, List.forall_mem_singleton.mpr hc⟩
  have hraw {α : Type} (k : Int32 → Action (Overheard σ) α) : Keeps P (rawOf handle >>= k) := by
    intro i hi
    rw [perform_bind, perform_rawOf, if_neg (hi.1 ▸ hforeign)]
    exact hi
  have hstart : P inst.overheard := ⟨rfl, fun _ hx => absurd hx List.not_mem_nil⟩
  constructor
  · intro path isDir
    exact (keeps_bind (hkept.ask (fun _ _ _ => hraw _) path isDir) (fun _ => keeps_pure _)
      inst.overheard hstart).2
  · intro paths
    exact (keeps_bind (hkept.filter (fun _ _ _ => hraw _) paths) (fun _ => keeps_pure _)
      inst.overheard hstart).2

/-- Asking and filtering leave the rules as they are. -/
theorem rules_work_of_question (hs : inst.guest.Sound) (ht : inst.tainted = false)
    (handle : Handle) :
    (∀ path isDir, (inst.work (.call (.ask handle path isDir))).guest.rules = inst.guest.rules) ∧
      ∀ paths, (inst.work (.call (.filter handle paths))).guest.rules = inst.guest.rules := by
  constructor
  · intro path isDir
    obtain ⟨done, hdone, hleaves⟩ := perform_ask hs ht handle path isDir
    rw [work_ask, hdone]
    exact hleaves.rules_eq
  · intro paths
    obtain ⟨done, hdone, hleaves⟩ := perform_filter hs ht handle paths
    rw [work_filter, hdone]
    exact hleaves.rules_eq

/-- To have a rule set forgotten changes nothing under any other handle. -/
theorem look_touch_destroyMatcher {other : Handle} (hne : other ≠ handle) :
    (inst.touch (.destroyMatcher handle)).look other = inst.look other := by
  show ((destroyMatcher handle).perform inst).2.look other = _
  by_cases hown : handle.instanceId = inst.id
  · cases ht : inst.tainted with
    | true =>
      unfold destroyMatcher
      rw [perform_rawOf_bind hown, perform_call_of_tainted ht]
    | false =>
      rw [show (destroyMatcher handle).perform inst = _ from perform_destroy ht hown]
      unfold look
      by_cases hother : other.instanceId = inst.id
      · have hword : word handle.raw ≠ word other.raw := by
          intro heq
          obtain ⟨id, raw⟩ := other
          obtain ⟨id', raw'⟩ := handle
          exact hne (Handle.mk.injEq .. ▸ ⟨hother.trans hown.symm, (word_inj.mp heq).symm⟩)
        have hget : (inst.guest.destroyMatcher handle.raw).rules.get? (word other.raw) =
            inst.guest.rules.get? (word other.raw) := by
          unfold Guest.destroyMatcher
          split
          · rw [RuleTable.get?_erase, if_neg hword]
          · rfl
        rw [withGuest_guest, hget]
        rfl
      · simp [withGuest, hother]
  · unfold destroyMatcher
    rw [perform_bind, perform_rawOf, if_neg hown]

end Instance

end PathSieve

/-
  The host leaves a guest as it has found it.

  Whatever blocks are live in the heap of a guest and wherever there is a gap, an operation
  of the host that does not taint the instance leaves the heap to the last free block as it
  was, also when it fails half-way (`heap_restored`). The rules are as they were too, but
  for the entry of a compiled rule set, and a rule set that is compiled for a while takes
  its entry with it.

  What a client can do with a rule set that is compiled for a while is filter path lists
  (`Filters`). It looks at what comes of each of them before it goes on, it may give up, and
  it may panic.
-/
import PathSieve.Proofs.Host.Agreement
import PathSieve.Proofs.Host.Handles

namespace PathSieve

namespace Action

variable {σ α : Type} {P : Instance σ → Prop}

/-- Do an action and look at what comes of it; a panic goes on. -/
def attempt (a : Action σ α) : Action σ (Except Error α) :=
  ofPerform fun inst =>
    match a.perform inst with
    | (.ok x, inst) => (.ok (.ok x), inst)
    | (.error (.error e), inst) => (.ok (.error e), inst)
    | (.error (.panic text), inst) => (.error (.panic text), inst)

theorem keeps_attempt {a : Action σ α} (ha : Keeps P a) : Keeps P a.attempt := by
  intro inst h
  have h' := ha inst h
  unfold attempt
  rw [perform_ofPerform]
  rcases hp : a.perform inst with ⟨(_ | _) | _, next⟩ <;> rw [hp] at h' <;> exact h'

end Action

namespace RuleTable

/-- One rule set has been added; as long as there is a handle left, under one that was not in
    use. -/
structure Adds (t : RuleTable) (handle : Nat) (rs : RuleSet) (t' : RuleTable) : Prop where
  entries_eq : t'.entries = (handle, rs) :: t.entries
  not_mem : t.size < maxHandle → handle ∉ t.entries.map Prod.fst

theorem Sound.adds_insert {t : RuleTable} (hs : t.Sound) (rs : RuleSet) :
    t.Adds (t.insert rs).1 rs (t.insert rs).2 :=
  ⟨entries_insert t rs, fun hsize => hs.not_mem_insert hsize rs⟩

end RuleTable

namespace Instance

open Guest PathSieve.Action

variable {α : Type} {inst done : Instance Guest}

/-- What a client does that has nothing but a compiled rule set in its hands. -/
inductive Filters {σ : Type} [Backend σ] (h : Handle) : Action σ α → Prop where
  | done (x : α) : Filters h (pure x)
  | fail (e : Error) : Filters h (Action.fail e)
  | unwind (text : String) : Filters h (Action.unwind text)
  | filter (paths : List String) {next : Except Error (List String) → Action σ α}
    (hnext : ∀ result, Filters h (next result)) : Filters h ((filter h paths).attempt >>= next)

/-- The heap and the rules are those of another instance. -/
structure SameState (inst done : Instance Guest) : Prop where
  heap_eq : done.guest.heap = inst.guest.heap
  rules_eq : done.guest.rules = inst.guest.rules

theorem Leaves.sameState {broken : Bool} (hl : inst.Leaves done inst.guest.rules broken)
    (htaint : done.tainted = false) : inst.SameState done :=
  ⟨hl.heap_eq (hl.tainted_eq.symm.trans htaint), hl.rules_eq⟩

/-- What an instance is later on, as long as nothing is compiled or forgotten. -/
structure Lasts (inst done : Instance Guest) : Prop where
  sound : done.guest.Sound
  id_eq : done.id = inst.id
  sameState : done.tainted = false → inst.SameState done

theorem Lasts.leaves {mid : Instance Guest} (h : inst.Lasts mid) (ht : mid.tainted = false)
    {broken : Bool} (hl : mid.Leaves done mid.guest.rules broken) (hs : done.guest.Sound) :
    inst.Lasts done := by
  have hmid := h.sameState ht
  refine ⟨hs, hl.id_eq.trans h.id_eq, fun htaint => ?_⟩
  have hdone := hl.sameState htaint
  exact ⟨hdone.heap_eq.trans hmid.heap_eq, hdone.rules_eq.trans hmid.rules_eq⟩

theorem keeps_lasts_filter (h : Handle) (paths : List String) :
    Keeps inst.Lasts (filter h paths) := by
  intro mid hlasts
  cases ht : mid.tainted with
  | true =>
    rw [perform_filter_tainted ht]
    exact hlasts
  | false =>
    have hsound := invariant_sound.filter h paths mid hlasts.sound
    obtain ⟨done, hdone, hleaves⟩ := perform_filter hlasts.sound ht h paths
    rw [hdone] at hsound ⊢
    exact hlasts.leaves ht hleaves hsound

/-- However often a client filters, and however it ends. -/
theorem Filters.keeps_lasts {h : Handle} {a : Action Guest α} (ha : Filters h a) :
    Keeps inst.Lasts a := by
  induction ha with
  | done x => exact keeps_pure x
  | fail e => exact keeps_fail e
  | unwind text => exact keeps_unwind text
  | filter paths _ ih => exact keeps_bind (keeps_attempt (keeps_lasts_filter h paths)) ih

/-- An action that does not taint the instance leaves its heap and its rules as they were. -/
def Restores (inst : Instance Guest) (a : Action Guest α) : Prop :=
  (a.perform inst).2.tainted = false → inst.SameState (a.perform inst).2

theorem restores_ask (hs : inst.guest.Sound) (ht : inst.tainted = false) (h : Handle)
    (path : List UInt8) (isDir : Bool) : inst.Restores (ask h path isDir) := by
  obtain ⟨done, hdone, hleaves⟩ := perform_ask hs ht h path isDir
  unfold Restores
  rw [hdone]
  exact hleaves.sameState

theorem restores_filter (hs : inst.guest.Sound) (ht : inst.tainted = false) (h : Handle)
    (paths : List String) : inst.Restores (filter h paths) := by
  obtain ⟨done, hdone, hleaves⟩ := perform_filter hs ht h paths
  unfold Restores
  rw [hdone]
  exact hleaves.sameState

/-- What a compile comes to: a handle for one more rule set, or an error and the same rules. -/
def Compiles (inst : Instance Guest) (rules : String) (result : Except Failure Handle)
    (done : Instance Guest) : Prop :=
  match result with
  | .ok h =>
    ∃ rs, RuleSet.ofText? (Text.Utf8.encode rules) = some rs ∧
      inst.guest.rules.Adds (word h.raw) rs done.guest.rules
  | .error _ => done.guest.rules = inst.guest.rules

theorem compiles_compile (hs : inst.guest.Sound) (ht : inst.tainted = false) (rules : String) :
    ((compile rules).perform inst).2.guest.heap = inst.guest.heap ∧
      inst.Compiles rules ((compile rules).perform inst).1 ((compile rules).perform inst).2 := by
  obtain ⟨done, hdone, hleaves⟩ := perform_compile hs ht rules
  rw [hdone]
  refine ⟨hleaves.heap_eq rfl, ?_⟩
  cases hanswer : compileAnswer inst.guest.hasRoom rules with
  | error e =>
    rw [hanswer] at hleaves
    exact hleaves.rules_eq
  | ok rs =>
    rw [hanswer] at hleaves
    refine ⟨rs, ofText?_of_compileAnswer hanswer, ?_⟩
    rw [(raw_nextHandle hs rs).2, hleaves.rules_eq]
    exact hs.rules.adds_insert rs

/-- Forgetting the rule set that has just been compiled. -/
theorem entries_destroyMatcher (hs : inst.guest.Sound) (rs : RuleSet)
    (hrules : done.guest.rules = (inst.guest.rules.insert rs).2)
    (hsize : inst.guest.rules.size < RuleTable.maxHandle) :
    (done.guest.destroyMatcher (inst.nextHandle rs).raw).rules.entries =
      inst.guest.rules.entries := by
  obtain ⟨hpos, hraw⟩ := raw_nextHandle hs rs
  unfold Guest.destroyMatcher
  rw [if_pos hpos, hraw]
  show (done.guest.rules.erase _).entries = _
  rw [hrules]
  exact hs.rules.entries_erase_insert hsize rs

/-- A rule set is compiled, a client filters with it, and it is forgotten. -/
theorem restores_withCompiled (hs : inst.guest.Sound) (ht : inst.tainted = false)
    (rules : String) {body : Handle → Action Guest α} (hbody : ∀ h, Filters h (body h))
    (htaint : ((withCompiled rules body).perform inst).2.tainted = false) :
    ((withCompiled rules body).perform inst).2.guest.heap = inst.guest.heap ∧
      (inst.guest.rules.size < RuleTable.maxHandle →
        ((withCompiled rules body).perform inst).2.guest.rules.entries =
          inst.guest.rules.entries) := by
  have hsound := invariant_sound.compile rules inst hs
  obtain ⟨mid, hmid, hleaves⟩ := perform_compile hs ht rules
  rw [hmid] at hsound
  unfold withCompiled at htaint ⊢
  rw [perform_bind, hmid] at htaint ⊢
  cases hanswer : compileAnswer inst.guest.hasRoom rules with
  | error e =>
    rw [hanswer] at hleaves
    exact ⟨hleaves.heap_eq rfl, fun _ => congrArg RuleTable.entries hleaves.rules_eq⟩
  | ok rs =>
    rw [hanswer] at hleaves htaint
    simp only [Except.map, Except.mapError, perform_ensuring] at htaint ⊢
    have hlasts := (hbody (inst.nextHandle rs)).keeps_lasts mid
      ⟨hsound, rfl, fun _ => ⟨rfl, rfl⟩⟩
    generalize ((body (inst.nextHandle rs)).perform mid).2 = done at hlasts htaint ⊢
    -- a tainted instance stays tainted, so the rule set can be forgotten
    cases hdone : done.tainted with
    | true =>
      rw [perform_destroy_tainted hdone, hdone] at htaint
      cases htaint
    | false =>
      have hown : (inst.nextHandle rs).instanceId = done.id :=
        (hlasts.id_eq.trans hleaves.id_eq).symm
      obtain ⟨hheap, hrules⟩ := hlasts.sameState hdone
      rw [perform_quietly, perform_destroy hdone hown]
      refine ⟨?_, fun hsize => ?_⟩
      · show (done.guest.destroyMatcher _).heap = _
        unfold Guest.destroyMatcher
        rw [if_pos (raw_nextHandle hs rs).1]
        exact hheap.trans (hleaves.heap_eq rfl)
      · exact entries_destroyMatcher hs rs (hrules.trans hleaves.rules_eq) hsize

/-- As long as it is not tainted, an instance has the same live and free blocks and the same
    top after compiling, asking, filtering, and after all that a client does with a rule set
    that is compiled for a while, and so are its rules, but for the entry of a compiled rule
    set. With all handles in use the search for one does not end, so there has to be one left
    for the last. -/
theorem heap_restored (hr : inst.Reachable) (ht : inst.tainted = false) :
    (∀ rules, ((compile rules).perform inst).2.tainted = false →
      ((compile rules).perform inst).2.guest.heap = inst.guest.heap ∧
        inst.Compiles rules ((compile rules).perform inst).1
          ((compile rules).perform inst).2) ∧
      (∀ h path isDir, inst.Restores (ask h path isDir)) ∧
      (∀ h paths, inst.Restores (filter h paths)) ∧
      ∀ (rules : String) (body : Handle → Action Guest α), (∀ h, Filters h (body h)) →
        ((withCompiled rules body).perform inst).2.tainted = false →
          ((withCompiled rules body).perform inst).2.guest.heap = inst.guest.heap ∧
            (inst.guest.rules.size < RuleTable.maxHandle →
              ((withCompiled rules body).perform inst).2.guest.rules.entries =
                inst.guest.rules.entries) := by
  refine ⟨fun rules _ => ?_, fun h path isDir => ?_, fun h paths => ?_,
    fun rules body hbody htaint => ?_⟩
  · exact compiles_compile hr.sound ht rules
  · exact restores_ask hr.sound ht h path isDir
  · exact restores_filter hr.sound ht h paths
  · exact restores_withCompiled hr.sound ht rules hbody htaint

/-- An instance with a compiled rule set, and with a gap in its heap below a live block. -/
def fragmented : Instance Guest :=
  ((ignoringB.touch (.alloc 24)).touch (.alloc 40)).touch (.dealloc 16 24)

theorem reachable_fragmented : fragmented.Reachable :=
  .touch _ (.touch _ (.touch _ reachable_ignoringB))

/-- A client that filters a second path list if the first one has not failed. -/
def filterTwice (h : Handle) : Action Guest (List String) :=
  (filter h ["a", "b"]).attempt >>= fun
    | .error e => Action.fail e
    | .ok _ => (filter h ["c", "a"]).attempt >>= fun
      | .error e => Action.fail e
      | .ok kept => pure kept

theorem filters_filterTwice (h : Handle) : Filters h (filterTwice h) := by
  refine .filter _ fun result => ?_
  cases result with
  | error e => exact .fail e
  | ok _ =>
    refine .filter _ fun result => ?_
    cases result with
    | error e => exact .fail e
    | ok kept => exact .done kept

/-- The gap below the live block is used and left as it was, and the rule set that was there
    before stays. -/
theorem heap_restored_filterTwice :
    fragmented.Reachable ∧ fragmented.tainted = false ∧
      fragmented.guest.heap = ⟨80, [⟨16, 24⟩], [⟨40, 40⟩]⟩ ∧
      ((withCompiled "a" filterTwice).perform fragmented).1.toOption = some ["c"] ∧
      ((withCompiled "a" filterTwice).perform fragmented).2.tainted = false ∧
      ((withCompiled "a" filterTwice).perform fragmented).2.guest.heap =
        fragmented.guest.heap ∧
      ((withCompiled "a" filterTwice).perform fragmented).2.guest.rules.entries =
        fragmented.guest.rules.entries := by
  have htaint : ((withCompiled "a" filterTwice).perform fragmented).2.tainted = false := by
    decide +kernel
  obtain ⟨-, -, -, hscoped⟩ := heap_restored (α := List String) reachable_fragmented
    (by decide +kernel)
  obtain ⟨hheap, hentries⟩ := hscoped "a" filterTwice filters_filterTwice htaint
  exact ⟨reachable_fragmented, by decide +kernel, by decide +kernel, by decide +kernel, htaint,
    hheap, hentries (by decide +kernel)⟩

end Instance

end PathSieve

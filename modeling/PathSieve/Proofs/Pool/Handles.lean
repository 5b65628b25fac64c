/-
  What a handle is good for.

  Over any number of pools whose guests evaluate rule sets, a handle that has come out of a
  compile leads to the rule set of its text on the instance that has compiled it, until the
  instance is asked to forget it, and to nothing on any other instance. Numbers of handles
  are the same on many instances, and instances go from hand to hand; what keeps handles
  apart is that no two instances have one id and no table draws a number twice.
-/
import PathSieve.Proofs.Host.Handles
import PathSieve.Proofs.Pool.Taint

namespace PathSieve

open List Instance Guest

/-- A system of pools whose guests evaluate rule sets. -/
abbrev GuestPoolSystem := PoolSystem GuestModule Guest

/-- A rule text is compiled on the instance at a place. -/
def Act.compile {μ : Type} (place : Nat) (rules : String) : Act μ :=
  .instanceOp place (.call (.compile rules))

namespace PoolSystem

variable {m : GuestPoolSystem} {inst : Instance Guest} {h : Handle} {rs : RuleSet}

/-- A guest that has just been made is sound and knows no rules. -/
theorem fresh_of_new (h : inst.New GuestModule) :
    inst.guest.Sound ∧ inst.guest.rules = RuleTable.empty := by
  obtain ⟨module, hmade⟩ := h.made
  have hguest := Except.ok.inj hmade
  exact ⟨hguest ▸ sound_fresh .., hguest ▸ rfl⟩

/-- Every guest is sound and its table has drawn as many handles as its history says. -/
theorem sound_and_drawn (acts : List (Act GuestModule))
    (hi : inst ∈ (({} : GuestPoolSystem).run acts).possessed) :
    inst.guest.Sound ∧
      (Incident.compiles (({} : GuestPoolSystem).historyOf inst.id acts) < RuleTable.maxHandle →
        inst.guest.rules.Drawn
          (Incident.compiles (({} : GuestPoolSystem).historyOf inst.id acts))) := by
  obtain ⟨start, hstart | ⟨-, hnew⟩, htrail⟩ := exists_trail books_empty acts inst hi
  · cases hstart
  · obtain ⟨hsound, hrules⟩ := fresh_of_new hnew
    have hdrawn : start.guest.rules.Drawn 0 := hrules ▸ RuleTable.drawn_empty
    refine ⟨htrail.invariant invariant_sound hsound, fun hlt => ?_⟩
    have := htrail.evolves.drawn 0 hdrawn (by rwa [Nat.zero_add])
    rwa [Nat.zero_add] at this

/-- What a handle is good for in a system, when it stands for a rule set and perhaps has been
    given back. -/
structure HandleMeans (m : GuestPoolSystem) (h : Handle) (rs : RuleSet) (gone : Prop) : Prop where
  /-- No two instances ever have the same id. -/
  ids : (m.ledger.made.map Identity.id).Nodup
  /-- On any other instance the handle is refused, the guest is asked for nothing but memory,
      and its rules stay as they are. -/
  foreign : ∀ inst ∈ m.possessed, inst.tainted = false → inst.id ≠ h.instanceId →
    inst.Answers h (fun _ _ => .error .invalidHandle) (fun _ => .error .invalidHandle) ∧
      (∀ path isDir, (∀ x ∈ inst.heard (.call (.ask h path isDir)), x.call.InMemory) ∧
        (inst.work (.call (.ask h path isDir))).guest.rules = inst.guest.rules) ∧
      ∀ paths, (∀ x ∈ inst.heard (.call (.filter h paths)), x.call.InMemory) ∧
        (inst.work (.call (.filter h paths))).guest.rules = inst.guest.rules
  /-- Once it has been given back it is not found any more. -/
  missing : gone → ∀ inst ∈ m.possessed, inst.tainted = false → inst.id = h.instanceId →
    inst.Answers h (fun _ _ => .error .handleNotFound) (fun _ => .error .handleNotFound)
  /-- Before that it is the rule set that answers. -/
  found : ¬ gone → ∀ inst ∈ m.possessed, inst.tainted = false → inst.id = h.instanceId →
    inst.Answers h (Seen.found rs).verdict
      fun paths => (Seen.found rs).keep (inst.resultRoom paths) (Text.unlines paths)
  /-- To give it back changes nothing under any other handle. -/
  others : ∀ inst ∈ m.possessed, ∀ other, other ≠ h →
    (inst.touch (.destroyMatcher h)).look other = inst.look other ∧
      (inst.work (.call (.drop h))).look other = inst.look other

/-- It is enough to know what every instance sees under the handle. -/
theorem handleMeans_of_look {gone : Prop} (hb : m.alone.Books)
    (hsound : ∀ inst ∈ m.possessed, inst.guest.Sound)
    (hforeign : ∀ inst ∈ m.possessed, inst.id ≠ h.instanceId → inst.look h = .foreign)
    (hmissing : gone → ∀ inst ∈ m.possessed, inst.id = h.instanceId → inst.look h = .missing)
    (hfound : ¬ gone → ∀ inst ∈ m.possessed, inst.id = h.instanceId → inst.look h = .found rs) :
    HandleMeans m h rs gone where
  ids := hb.nodup_ids
  foreign inst hi ht hne := by
    have hanswers := answers_look (hsound inst hi) ht h
    rw [hforeign inst hi hne] at hanswers
    obtain ⟨hask, hfilter⟩ := heard_of_foreign (Ne.symm hne)
    obtain ⟨hask', hfilter'⟩ := rules_work_of_question (hsound inst hi) ht h
    exact ⟨hanswers, fun path isDir => ⟨hask path isDir, hask' path isDir⟩,
      fun paths => ⟨hfilter paths, hfilter' paths⟩⟩
  missing hgone inst hi ht hown := by
    have hanswers := answers_look (hsound inst hi) ht h
    rw [hmissing hgone inst hi hown] at hanswers
    refine ⟨fun path isDir hplace htext => ?_, hanswers.filter⟩
    have hverdict : Seen.missing.verdict path isDir = .error .handleNotFound := by
      simp only [Seen.verdict]
      rw [if_neg (by simpa [← Option.isSome_iff_ne_none] using htext)]
    rw [hanswers.ask path isDir hplace htext, hverdict]
  found hgone inst hi ht hown := by
    have hanswers := answers_look (hsound inst hi) ht h
    rwa [hfound hgone inst hi hown] at hanswers
  others inst hi other hne :=
    ⟨look_touch_destroyMatcher hne, work_drop_eq_touch inst h ▸ look_touch_destroyMatcher hne⟩

theorem look_of_files {entry : Option RuleSet} (hown : inst.id = h.instanceId) (hpos : 0 < h.raw)
    (hf : inst.guest.rules.Files (word h.raw) entry) :
    inst.look h = entry.elim .missing .found := by
  rw [look_of_eq hown hpos, hf.get?_eq]

theorem mem_possessed_of_held {place : Nat} {held : Holding Guest}
    (h : m.ledger.held[place]? = some held) : held.inst ∈ m.possessed :=
  mem_append_right _ (mem_map_of_mem (mem_of_getElem? h))

/-- After a compile that gives a handle its instance has the rule set of the text. -/
theorem exists_files_of_compile {before : List (Act GuestModule)} {place : Nat} {rules : String}
    {held : Holding Guest}
    (hheld : (({} : GuestPoolSystem).run before).ledger.held[place]? = some held)
    (hcompile : ((compile rules).perform held.inst).1 = .ok h) :
    ∃ rs done, RuleSet.ofText? (Text.Utf8.encode rules) = some rs ∧ 0 < h.raw ∧
      done ∈ (({} : GuestPoolSystem).run (before ++ [.compile place rules])).possessed ∧
      done.id = h.instanceId ∧
      (Incident.compiles (({} : GuestPoolSystem).historyOf h.instanceId
          (before ++ [.compile place rules])) < RuleTable.maxHandle →
        done.guest.rules.Files (word h.raw) (some rs)) := by
  obtain ⟨hsound, hdrawn⟩ := sound_and_drawn before (mem_possessed_of_held hheld)
  obtain ⟨rs, htext, rfl, hrules⟩ := rules_of_compile hsound hcompile
  obtain ⟨hpos, hraw⟩ := raw_nextHandle hsound rs
  rw [← work_compile] at hrules
  refine ⟨rs, held.inst.work (.call (.compile rules)), htext, hpos, ?_,
    congrArg Identity.id (identity_work ..), fun hlt => ?_⟩
  · rw [run_append]
    have hafter :
        ((({} : GuestPoolSystem).run before).act (.compile place rules)).ledger.held[place]? =
        some { held with inst := held.inst.work (.call (.compile rules)) } := by
      show ((_ : List (Holding Guest)).modify place _)[place]? = _
      rw [getElem?_modify_eq, hheld]
      rfl
    exact mem_possessed_of_held hafter
  · -- the table has grown, so the compile is in the history
    have hsize := (evolves_work held.inst (.call (.compile rules))).size_le
    rw [hrules] at hsize
    have hgrown : held.inst.guest.rules.size + 1 ≤ held.inst.guest.rules.size +
        Incident.compiles (held.inst.incidents (.call (.compile rules))) := hsize
    have hworked : (({} : GuestPoolSystem).run before).worked? (.compile place rules) =
        some (held.inst, .call (.compile rules)) := by
      show Option.map _ (_ : List (Holding Guest))[place]? = _
      rw [hheld]
      rfl
    have hid : (held.inst.nextHandle rs).instanceId = held.inst.id := rfl
    rw [historyOf_append, historyOf_act, hworked, hid] at hlt
    simp only [if_true, Incident.compiles_append] at hlt
    rw [hrules, hraw]
    exact (hdrawn (by omega)).files_insert (by omega) rs

/-- Over any run, a handle that an instance has given for a rule text means the rule set of that
    text on that instance, until the instance is asked to forget it, and nothing elsewhere. -/
theorem handleMeans_run (before after : List (Act GuestModule)) (place : Nat) (rules : String)
    (held : Holding Guest)
    (hheld : (({} : GuestPoolSystem).run before).ledger.held[place]? = some held)
    (hcompile : ((compile rules).perform held.inst).1 = .ok h)
    (hcount : Incident.compiles (({} : GuestPoolSystem).historyOf h.instanceId
      (before ++ [.compile place rules] ++ after)) < RuleTable.maxHandle) :
    ∃ rs, RuleSet.ofText? (Text.Utf8.encode rules) = some rs ∧
      HandleMeans (({} : GuestPoolSystem).run (before ++ [.compile place rules] ++ after)) h rs
        (.destroyMatcher h.raw ∈ Incident.calls
          ((({} : GuestPoolSystem).run (before ++ [.compile place rules])).historyOf
            h.instanceId after)) := by
  obtain ⟨rs, done, htext, hpos, hdone, hid, hfiles⟩ := exists_files_of_compile hheld hcompile
  refine ⟨rs, htext, ?_⟩
  generalize before ++ [.compile place rules] = upto at *
  rw [historyOf_append, Incident.compiles_append] at hcount
  have hbooks := books_run (books_empty (μ := GuestModule) (σ := Guest)) upto
  obtain ⟨-, hdrawn⟩ := sound_and_drawn upto hdone
  rw [hid] at hdrawn
  -- whoever has the instance later has it with what is left of the rule set
  have hlook : ∀ inst ∈ (({} : GuestPoolSystem).run (upto ++ after)).possessed,
      inst.id = h.instanceId →
        inst.look h = (if EntryCall.destroyMatcher h.raw ∈ Incident.calls
          ((({} : GuestPoolSystem).run upto).historyOf h.instanceId after) then none
          else some rs).elim .missing .found := by
    intro inst hi hown
    rw [run_append] at hi
    obtain ⟨start, hstart, htrail⟩ := exists_trail hbooks after inst hi
    have hstartid : start.id = done.id := htrail.id_eq.symm.trans (hown.trans hid.symm)
    rcases hstart with hstart | ⟨hnext, -⟩
    · obtain rfl := eq_of_id_eq hbooks hstart hdone hstartid
      rw [hown] at htrail
      refine look_of_files hown hpos ?_
      exact htrail.evolves.files _ h.raw _ (hdrawn (by omega)) hcount hpos (hfiles (by omega))
    · have := id_lt_nextInstanceId hbooks hdone
      omega
  refine handleMeans_of_look (books_run books_empty _) (fun inst hi => (sound_and_drawn _ hi).1)
    (fun inst _ hne => look_of_ne hne) (fun hgone inst hi hown => ?_) fun hgone inst hi hown => ?_
  · rw [hlook inst hi hown, if_pos hgone]
    rfl
  · rw [hlook inst hi hown, if_neg hgone]
    rfl

/-- Two instances of one pool. -/
def twoLeases : List (Act GuestModule) :=
  [.poolOp (.openPool ⟨1, 1⟩ {}), .poolOp (.acquire 1), .poolOp (.acquire 1)]

/-- The other instance draws the same number, for other rules. -/
theorem handleMeans_run_twoLeases :
    let name := Lending.instanceName 2
    let held : Holding Guest :=
      ⟨some 1, { id := 2, poolId := 1, name := name, guest := Guest.fresh name 1 1 }⟩
    let acts : List (Act GuestModule) := twoLeases ++ [.compile 0 "b"] ++ [.compile 1 "a"]
    (({} : GuestPoolSystem).run twoLeases).ledger.held[0]? = some held ∧
      ((compile "b").perform held.inst).1 = .ok ⟨2, 1⟩ ∧
      Incident.compiles (({} : GuestPoolSystem).historyOf 2 acts) < RuleTable.maxHandle ∧
      ∃ rs, RuleSet.ofText? (Text.Utf8.encode "b") = some rs ∧
        HandleMeans (({} : GuestPoolSystem).run acts) ⟨2, 1⟩ rs
          (.destroyMatcher 1 ∈ Incident.calls
            ((({} : GuestPoolSystem).run (twoLeases ++ [.compile 0 "b"])).historyOf 2
              [.compile 1 "a"])) := by
  intro name held acts
  have hheld : (({} : GuestPoolSystem).run twoLeases).ledger.held[0]? = some held := rfl
  have hcompile : ((compile "b").perform held.inst).1 = .ok ⟨2, 1⟩ := by
    have hsome : ((compile "b").perform held.inst).1.toOption = some ⟨2, 1⟩ := by decide +kernel
    cases hr : ((compile "b").perform held.inst).1 with
    | error failure =>
      rw [hr] at hsome
      cases hsome
    | ok handle =>
      rw [hr] at hsome
      exact congrArg Except.ok (Option.some.inj hsome)
  have hcount :
      Incident.compiles (({} : GuestPoolSystem).historyOf 2 acts) < RuleTable.maxHandle := by
    decide +kernel
  exact ⟨hheld, hcompile, hcount, handleMeans_run twoLeases [.compile 1 "a"] 0 "b" held hheld
    hcompile hcount⟩

end PoolSystem

end PathSieve

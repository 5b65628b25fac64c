/-
  How asking and filtering end.

  Asking can end in six ways and filtering in seven, and the state says which: is there
  room beside the live blocks for what has to be placed, is the handle one of this
  instance, is the path a text, is there a rule set under the handle, does the engine break
  down over a path (`AskEnds`, `FilterEnds`). Each way excludes those that come before it,
  and there are no others (`ask_ends`, `filter_ends`). In particular host and guest never
  misunderstand each other: of the errors that only say so none is ever given
  (`Error.isInternal`). Only a call that breaks down taints.

  There is room if the naive allocator, which knows the live blocks alone, finds places for
  all sizes one beside the other.
-/
import PathSieve.Proofs.Host.Restored
import PathSieve.Proofs.Sandbox.Naive

namespace PathSieve

/-- Does an error say that host and guest have misunderstood each other? -/
def Error.isInternal : Error → Bool
  | .invalidArgument => true
  | .outOfRange _ _ _ => true
  | .nullResultDescriptor => true
  | .emptyResult _ => true
  | .unexpectedCode _ _ => true
  | _ => false

namespace RuleSet

variable {rs : RuleSet}

/-- Does the engine break down over a path? There are rules, and the path is rooted even
    without its root. -/
def Balks (rs : RuleSet) (path : List UInt8) : Prop :=
  rs.isEmpty = false ∧ (Path.unroot path).head? = some Glob.slash

theorem verdict?_eq_none_iff {path : List UInt8} {isDir : Bool} :
    rs.verdict? path isDir = none ↔ rs.Balks path := by
  unfold verdict? Balks Path.relative?
  cases rs.isEmpty with
  | true => simp
  | false => simp

/-- There is an answer for every line when the engine breaks down over none. -/
theorem decides_iff {ls : List String} :
    rs.Decides ls ↔ ∀ l ∈ ls, l ≠ "" → ¬ rs.Balks (pathOfLine l).1 := by
  unfold Decides verdictOfLine?
  simp only [Option.isSome_iff_ne_none, Ne, verdict?_eq_none_iff]

/-- The lines that a rule set keeps of a path list. -/
def keptOf (rs : RuleSet) (paths : List String) : List String :=
  rs.kept (paths.flatMap Text.lines)

/-- Does the engine break down over a line of a path list? -/
def BalksAt (rs : RuleSet) (paths : List String) : Prop :=
  ∃ l ∈ paths.flatMap Text.lines, l ≠ "" ∧ rs.Balks (pathOfLine l).1

theorem decides_iff_not_balksAt {paths : List String} :
    rs.Decides (paths.flatMap Text.lines) ↔ ¬ rs.BalksAt paths := by
  simp only [decides_iff, BalksAt, not_exists, not_and]

theorem keptLines?_of_not_balksAt {paths : List String} (hne : paths ≠ [])
    (h : ¬ rs.BalksAt paths) : rs.keptLines? (Text.unlines paths) = some (rs.keptOf paths) :=
  (keptLines?_unlines hne).mpr ⟨decides_iff_not_balksAt.mpr h, rfl⟩

theorem keptLines?_of_balksAt {paths : List String} (hne : paths ≠ []) (h : rs.BalksAt paths) :
    rs.keptLines? (Text.unlines paths) = none := by
  refine Option.eq_none_iff_forall_ne_some.mpr fun kept hkept => ?_
  exact decides_iff_not_balksAt.mp ((keptLines?_unlines hne).mp hkept).1 h

end RuleSet

namespace Instance

open Guest PathSieve.Action

variable {inst : Instance Guest} {h : Handle} {path : List UInt8} {isDir : Bool}
  {paths : List String} {broke : Bool}

/-- Is there room for all of the sizes beside the live blocks, under the ceiling? -/
def room (inst : Instance Guest) (sizes : List Nat) : Bool :=
  inst.guest.naive.hasRoom sizes

theorem room_eq (hs : inst.guest.Sound) : inst.guest.hasRoom = inst.room :=
  funext hs.hasRoom_naive

/-- The rule set under a handle of the instance. -/
def rulesUnder (inst : Instance Guest) (h : Handle) : Option RuleSet :=
  inst.guest.rules.get? (word h.raw)

theorem look_of_own (hpos : 0 < h.raw) (hown : h.instanceId = inst.id) :
    inst.look h = (inst.rulesUnder h).elim .missing .found :=
  look_of_eq hown.symm hpos

/-! ## Asking -/

/-- How asking about a path ends, and whether it taints the instance. -/
inductive AskEnds (inst : Instance Guest) (h : Handle) (path : List UInt8) (isDir : Bool) :
    Except Error Verdict → Bool → Prop where
  | noRoom (full : inst.room [path.length] = false) :
    AskEnds inst h path isDir (.error (.allocationFailed path.length)) false
  | foreign (fits : inst.room [path.length] = true) (other : h.instanceId ≠ inst.id) :
    AskEnds inst h path isDir (.error .invalidHandle) false
  | noText (fits : inst.room [path.length] = true) (own : h.instanceId = inst.id)
    (text : Text.Utf8.decode? path = none) :
    AskEnds inst h path isDir (.error .pathEncoding) false
  | missing (fits : inst.room [path.length] = true) (own : h.instanceId = inst.id)
    (text : Text.Utf8.decode? path ≠ none) (gone : inst.rulesUnder h = none) :
    AskEnds inst h path isDir (.error .handleNotFound) false
  | unrooted {rs : RuleSet} (fits : inst.room [path.length] = true)
    (own : h.instanceId = inst.id) (text : Text.Utf8.decode? path ≠ none)
    (found : inst.rulesUnder h = some rs) (balks : rs.Balks path) :
    AskEnds inst h path isDir (.error (broken .isMatch (.unrooted .isMatch))) true
  | decided {rs : RuleSet} {v : Verdict} (fits : inst.room [path.length] = true)
    (own : h.instanceId = inst.id) (text : Text.Utf8.decode? path ≠ none)
    (found : inst.rulesUnder h = some rs) (verdict : rs.verdict? path isDir = some v) :
    AskEnds inst h path isDir (.ok v) false

namespace AskEnds

variable {result : Except Error Verdict}

/-- Each end is the only one. -/
theorem ask_eq (he : inst.AskEnds h path isDir result broke) (hpos : 0 < h.raw) :
    (inst.look h).ask inst.room path isDir = result ∧ breaks result = broke := by
  cases he with
  | noRoom full => simp [Seen.ask, full, breaks, Error.isTransport]
  | foreign fits other =>
    simp [Seen.ask, fits, look_of_ne (Ne.symm other), Seen.verdict, breaks, Error.isTransport]
  | noText fits own text =>
    rw [look_of_own hpos own]
    cases inst.rulesUnder h <;> simp [Seen.ask, fits, Seen.verdict, text, breaks, Error.isTransport]
  | missing fits own text gone =>
    simp [Seen.ask, fits, look_of_own hpos own, gone, Seen.verdict, text, breaks, Error.isTransport]
  | unrooted fits own text found balks =>
    have hnone : _ = none := (@RuleSet.verdict?_eq_none_iff _ path isDir).mpr balks
    simp [Seen.ask, fits, look_of_own hpos own, found, Seen.verdict, text, hnone, breaks, broken,
      Error.isTransport]
  | decided fits own text found verdict =>
    simp [Seen.ask, fits, look_of_own hpos own, found, Seen.verdict, text, verdict, breaks]

/-- There is an end for every state. -/
theorem of_ask (hpos : 0 < h.raw) :
    inst.AskEnds h path isDir ((inst.look h).ask inst.room path isDir)
      (breaks ((inst.look h).ask inst.room path isDir)) := by
  -- whatever the end is, it is this one
  suffices hsome : ∃ result broke, inst.AskEnds h path isDir result broke by
    obtain ⟨result, broke, he⟩ := hsome
    obtain ⟨rfl, rfl⟩ := he.ask_eq hpos
    exact he
  cases hfits : inst.room [path.length] with
  | false => exact ⟨_, _, .noRoom hfits⟩
  | true =>
  by_cases hown : h.instanceId = inst.id
  case neg => exact ⟨_, _, .foreign hfits hown⟩
  by_cases htext : Text.Utf8.decode? path = none
  case pos => exact ⟨_, _, .noText hfits hown htext⟩
  cases hfound : inst.rulesUnder h with
  | none => exact ⟨_, _, .missing hfits hown htext hfound⟩
  | some rs =>
  cases hverdict : rs.verdict? path isDir with
  | none =>
    exact ⟨_, _, .unrooted hfits hown htext hfound (RuleSet.verdict?_eq_none_iff.mp hverdict)⟩
  | some v => exact ⟨_, _, .decided hfits hown htext hfound hverdict⟩

theorem not_isInternal (he : inst.AskEnds h path isDir result broke) {e : Error}
    (herr : result = .error e) : e.isInternal = false := by
  subst herr
  cases he <;> rfl

end AskEnds

/-- Asking ends in the way that the state says, with that result, and the instance is tainted
    exactly when that is the end at which the engine breaks down. The number of a handle is
    positive. -/
theorem ask_ends (hr : inst.Reachable) (ht : inst.tainted = false) (hpos : 0 < h.raw)
    (path : List UInt8) (isDir : Bool) :
    ∃ result done, (ask h path isDir).perform inst = (result.mapError .error, done) ∧
      (∀ r broke, inst.AskEnds h path isDir r broke ↔ r = result ∧ broke = done.tainted) ∧
      done.tainted = breaks result ∧
      ∀ e, result = .error e → e.isInternal = false := by
  obtain ⟨done, hdone, hleaves⟩ := perform_ask hr.sound ht h path isDir
  rw [room_eq hr.sound] at hdone hleaves
  have hends : inst.AskEnds h path isDir _ _ := .of_ask hpos
  refine ⟨_, done, hdone, fun r broke => ⟨fun he => ?_, ?_⟩, hleaves.tainted_eq,
    fun e => hends.not_isInternal⟩
  · obtain ⟨rfl, rfl⟩ := he.ask_eq hpos
    exact ⟨rfl, hleaves.tainted_eq.symm⟩
  · rintro ⟨rfl, rfl⟩
    rw [hleaves.tainted_eq]
    exact hends

/-- The engine breaks down over a path that is rooted three times over. -/
theorem ask_ends_rooted :
    fragmented.AskEnds ⟨1, 1⟩ [47, 47, 47, 98] false
      (.error (broken .isMatch (.unrooted .isMatch))) true ∧
      ((ask ⟨1, 1⟩ [47, 47, 47, 98] false).perform fragmented).1 =
        .error (.error (broken .isMatch (.unrooted .isMatch))) ∧
      ((ask ⟨1, 1⟩ [47, 47, 47, 98] false).perform fragmented).2.tainted = true := by
  have hr := reachable_fragmented
  have hroom : fragmented.room [4] = true := by
    rw [← room_eq hr.sound]
    decide +kernel
  have hrules : (fragmented.rulesUnder ⟨1, 1⟩).any (fun rs => !rs.isEmpty) = true := by
    decide +kernel
  cases hfound : fragmented.rulesUnder ⟨1, 1⟩ with
  | none => simp [hfound] at hrules
  | some rs =>
    have hends : fragmented.AskEnds ⟨1, 1⟩ [47, 47, 47, 98] false _ true :=
      .unrooted hroom (by decide +kernel) (by decide +kernel) hfound
        ⟨by simpa [hfound] using hrules, by decide +kernel⟩
    obtain ⟨result, done, hdone, hiff, -⟩ := ask_ends hr (by decide +kernel)
      (show 0 < (⟨1, 1⟩ : Handle).raw by decide) [47, 47, 47, 98] false
    obtain ⟨rfl, htaint⟩ := (hiff _ _).mp hends
    rw [hdone]
    exact ⟨hends, rfl, htaint.symm⟩

/-! ## Filtering -/

/-- The bytes of the text that a path list is placed as. -/
def blob (paths : List String) : List UInt8 :=
  Text.Utf8.encode (Text.unlines paths)

/-- How many bytes a path list takes. -/
def blobSize (paths : List String) : Nat :=
  (blob paths).length

/-- How filtering a path list ends, and whether it taints the instance. -/
inductive FilterEnds (inst : Instance Guest) (h : Handle) (paths : List String) :
    Except Error (List String) → Bool → Prop where
  | noRoom (full : inst.room [blobSize paths] = false) :
    FilterEnds inst h paths (.error (.allocationFailed (blobSize paths))) false
  | noDescriptor (fits : inst.room [blobSize paths] = true)
    (full : inst.room [blobSize paths, descriptorSize] = false) :
    FilterEnds inst h paths (.error (.allocationFailed descriptorSize)) false
  | foreign (fits : inst.room [blobSize paths, descriptorSize] = true)
    (other : h.instanceId ≠ inst.id) :
    FilterEnds inst h paths (.error .invalidHandle) false
  | missing (fits : inst.room [blobSize paths, descriptorSize] = true)
    (own : h.instanceId = inst.id) (gone : inst.rulesUnder h = none) :
    FilterEnds inst h paths (.error .handleNotFound) false
  | unrooted {rs : RuleSet} (fits : inst.room [blobSize paths, descriptorSize] = true)
    (own : h.instanceId = inst.id) (found : inst.rulesUnder h = some rs)
    (balks : rs.BalksAt paths) :
    FilterEnds inst h paths (.error (broken .batchFilter (.unrooted .batchFilter))) true
  | noResult {rs : RuleSet} (fits : inst.room [blobSize paths, descriptorSize] = true)
    (own : h.instanceId = inst.id) (found : inst.rulesUnder h = some rs)
    (decides : ¬ rs.BalksAt paths) (nonempty : rs.keptOf paths ≠ [])
    (full : inst.room [blobSize paths, descriptorSize, blobSize (rs.keptOf paths)] = false) :
    FilterEnds inst h paths (.error (broken .batchFilter .resultExhausted)) true
  | kept {rs : RuleSet} (fits : inst.room [blobSize paths, descriptorSize] = true)
    (own : h.instanceId = inst.id) (found : inst.rulesUnder h = some rs)
    (decides : ¬ rs.BalksAt paths)
    (result : rs.keptOf paths = [] ∨
      inst.room [blobSize paths, descriptorSize, blobSize (rs.keptOf paths)] = true) :
    FilterEnds inst h paths (.ok (rs.keptOf paths)) false

/-- What comes of filtering when there is room for the list and the descriptor. -/
theorem filter_of_room (hne : paths ≠ [])
    (hfits : inst.room [blobSize paths, descriptorSize] = true) (seen : Seen) :
    seen.filter inst.room paths =
      seen.keep (fun size => inst.room [blobSize paths, descriptorSize, size])
        (Text.unlines paths) := by
  have hfits' : inst.room [blobSize paths] = true := @Naive.hasRoom_of_append _ [_] [_] hfits
  have hempty : paths.isEmpty = false := by simpa using hne
  unfold blobSize blob at hfits hfits'
  unfold Seen.filter
  simp only [hempty, hfits, hfits', Bool.not_true, Bool.false_eq_true, if_false]
  rfl

/-- What is kept when the engine breaks down over no line. -/
theorem keep_of_decides {rs : RuleSet} (hne : paths ≠ []) (hdecides : ¬ rs.BalksAt paths)
    (room : Nat → Bool) :
    (Seen.found rs).keep room (Text.unlines paths) =
      if rs.keptOf paths = [] ∨ room (blobSize (rs.keptOf paths)) = true then .ok (rs.keptOf paths)
      else .error (broken .batchFilter .resultExhausted) := by
  simp only [Seen.keep, RuleSet.keptLines?_of_not_balksAt hne hdecides]
  unfold blobSize blob
  cases rs.keptOf paths with
  | nil => rfl
  | cons l ls =>
    cases hroom : room (Text.Utf8.encode (Text.unlines (l :: ls))).length <;> simp [hroom]

namespace FilterEnds

variable {result : Except Error (List String)}

/-- Each end is the only one. -/
theorem filter_eq (he : inst.FilterEnds h paths result broke) (hpos : 0 < h.raw)
    (hne : paths ≠ []) :
    (inst.look h).filter inst.room paths = result ∧ breaks result = broke := by
  have hempty : paths.isEmpty = false := by simpa using hne
  cases he with
  | noRoom full =>
    unfold blobSize blob at full ⊢
    simp [Seen.filter, hempty, full, breaks, Error.isTransport]
  | noDescriptor fits full =>
    unfold blobSize blob at fits full
    simp [Seen.filter, hempty, fits, full, breaks, Error.isTransport]
  | foreign fits other =>
    rw [filter_of_room hne fits, look_of_ne (Ne.symm other)]
    exact ⟨rfl, rfl⟩
  | missing fits own gone =>
    rw [filter_of_room hne fits, look_of_own hpos own, gone]
    exact ⟨rfl, rfl⟩
  | unrooted fits own found balks =>
    rw [filter_of_room hne fits, look_of_own hpos own, found]
    simp only [Option.elim_some, Seen.keep, RuleSet.keptLines?_of_balksAt hne balks]
    exact ⟨trivial, rfl⟩
  | noResult fits own found decides nonempty full =>
    rw [filter_of_room hne fits, look_of_own hpos own, found]
    simp only [Option.elim_some, keep_of_decides hne decides]
    rw [if_neg (by simp [nonempty, full])]
    exact ⟨rfl, rfl⟩
  | kept fits own found decides result =>
    rw [filter_of_room hne fits, look_of_own hpos own, found]
    simp only [Option.elim_some, keep_of_decides hne decides]
    rw [if_pos result]
    exact ⟨rfl, rfl⟩

/-- There is an end for every state. -/
theorem of_filter (hpos : 0 < h.raw) (hne : paths ≠ []) :
    inst.FilterEnds h paths ((inst.look h).filter inst.room paths)
      (breaks ((inst.look h).filter inst.room paths)) := by
  suffices hsome : ∃ result broke, inst.FilterEnds h paths result broke by
    obtain ⟨result, broke, he⟩ := hsome
    obtain ⟨rfl, rfl⟩ := he.filter_eq hpos hne
    exact he
  cases hfits : inst.room [blobSize paths] with
  | false => exact ⟨_, _, .noRoom hfits⟩
  | true =>
  cases hfits' : inst.room [blobSize paths, descriptorSize] with
  | false => exact ⟨_, _, .noDescriptor hfits hfits'⟩
  | true =>
  by_cases hown : h.instanceId = inst.id
  case neg => exact ⟨_, _, .foreign hfits' hown⟩
  cases hfound : inst.rulesUnder h with
  | none => exact ⟨_, _, .missing hfits' hown hfound⟩
  | some rs =>
  by_cases hbalks : rs.BalksAt paths
  case pos => exact ⟨_, _, .unrooted hfits' hown hfound hbalks⟩
  by_cases hresult : rs.keptOf paths = [] ∨
      inst.room [blobSize paths, descriptorSize, blobSize (rs.keptOf paths)] = true
  case pos => exact ⟨_, _, .kept hfits' hown hfound hbalks hresult⟩
  rw [not_or, Bool.not_eq_true] at hresult
  exact ⟨_, _, .noResult hfits' hown hfound hbalks hresult.1 hresult.2⟩

theorem not_isInternal (he : inst.FilterEnds h paths result broke) {e : Error}
    (herr : result = .error e) : e.isInternal = false ∧ e ≠ .pathEncoding := by
  subst herr
  cases he <;> exact ⟨rfl, nofun⟩

end FilterEnds

/-- A path list and a descriptor have been placed, and the guest can be asked to filter. -/
structure Primed (inst : Instance Guest) (paths : List String) (ptr info : Nat)
    (ready : Instance Guest) : Prop where
  writes : ∃ mid,
    (writeBytes (blob paths)).perform inst = (.ok (.ofNat ptr (blobSize paths)), mid) ∧
      (writeBytes (List.replicate descriptorSize 0)).perform mid =
        (.ok (.ofNat info descriptorSize), ready)
  id_eq : ready.id = inst.id
  tainted_eq : ready.tainted = false
  sound : ready.guest.Sound
  rules_eq : ready.guest.rules = inst.guest.rules
  held : ready.guest.Held ptr (blob paths)
  describable : Describable ready.guest info
  hasRoom_eq : ∀ sizes,
    ready.guest.hasRoom sizes = inst.guest.hasRoom (blobSize paths :: descriptorSize :: sizes)

theorem exists_primed (hs : inst.guest.Sound) (ht : inst.tainted = false)
    (hfits : inst.guest.hasRoom [blobSize paths, descriptorSize] = true) :
    ∃ ptr info ready, inst.Primed paths ptr info ready := by
  cases htake : inst.guest.take? (blobSize paths) with
  | none => simp [hasRoom_cons_of_none htake] at hfits
  | some r =>
  obtain ⟨ptr, g⟩ := r
  have hg := hs.take? htake
  have hsound : (g.holding ptr (blob paths)).Sound := hg.sound.store _ _
  cases htake' : (g.holding ptr (blob paths)).take? descriptorSize with
  | none =>
    rw [hasRoom_cons_of_some htake, ← hasRoom_holding g ptr (blob paths),
      hasRoom_cons_of_none htake'] at hfits
    cases hfits
  | some r =>
  obtain ⟨info, g'⟩ := r
  -- the descriptor stands beside the text, so writing it leaves the text where it is
  have hg' := hsound.take? htake'
  have hzeros : (List.replicate descriptorSize (0 : UInt8)).length = descriptorSize :=
    List.length_replicate
  refine ⟨ptr, info, (inst.withGuest (g.holding ptr (blob paths))).withGuest
    (g'.holding info (List.replicate descriptorSize 0)), ⟨_, perform_writeBytes hs ht htake, ?_⟩,
    rfl, ht, hg'.sound.store _ _, hg'.rules_eq.trans hg.rules_eq, ?_, ?_, fun sizes => ?_⟩
  · have hwrite := @perform_writeBytes (inst.withGuest (g.holding ptr (blob paths))) hsound ht
      (List.replicate descriptorSize 0) info g' (by rwa [hzeros])
    rwa [hzeros] at hwrite
  · exact hg.held_holding (hzeros.symm ▸ hg')
  · exact ⟨hg'.ptr_pos (by decide), hg'.ptr_lt, hg'.inside, hg'.live (by decide)⟩
  · rw [hasRoom_cons_of_some htake, ← hasRoom_holding g ptr (blob paths),
      hasRoom_cons_of_some htake']
    exact hasRoom_holding ..

/-- The guest reports a number when it is asked to filter a path list that has been placed. -/
def Reports (inst : Instance Guest) (h : Handle) (paths : List String) (code : Int32) : Prop :=
  ∃ ptr info ready, inst.Primed paths ptr info ready ∧
    ((batchFilter h (Span.ofNat ptr (blobSize paths)).ptr (Span.ofNat ptr (blobSize paths)).len
      (Span.ofNat info descriptorSize).ptr).perform ready).1 = .ok code

/-- There are no more kept lines than a signed number can say. -/
theorem length_keptOf_lt {rs : RuleSet} {g : Guest} {ptr : Nat} (hne : paths ≠ [])
    (hheld : g.Held ptr (blob paths)) : (rs.keptOf paths).length < 0x80000000 := by
  have hlt := hheld.length_lt
  unfold blob at hlt
  unfold RuleSet.keptOf
  rw [← Text.lines_unlines hne]
  by_cases hkept : rs.kept (Text.lines (Text.unlines paths)) = []
  · rw [hkept]
    decide
  · exact Nat.lt_of_le_of_lt (RuleSet.length_kept_le hkept).2.2 hlt

/-- There are as many lines in an answer as the guest reports. -/
theorem FilterEnds.reports (hs : inst.guest.Sound) (ht : inst.tainted = false)
    (hpos : 0 < h.raw) (hne : paths ≠ []) {kept : List String}
    (he : inst.FilterEnds h paths (.ok kept) broke) :
    ∃ code, inst.Reports h paths code ∧ code.toInt = kept.length := by
  cases he with
  | @kept rs fits own found decides result =>
  rw [← room_eq hs] at fits result
  obtain ⟨ptr, info, ready, hp⟩ := exists_primed hs ht fits
  refine ⟨ofWord (rs.keptOf paths).length, ⟨ptr, info, ready, hp, ?_⟩,
    toInt_ofWord (length_keptOf_lt hne hp.held)⟩
  have hraw : ¬ h.raw ≤ 0 := Int32.not_le.mpr hpos
  have hfound : ready.guest.rules.get? (word h.raw) = some rs := hp.rules_eq ▸ found
  have hbatch := hp.held.batchFilter hp.sound hp.describable.pos hp.describable.lt
    hp.describable.inside h.raw
  simp only [hraw, if_false, hfound, RuleSet.keptLines?_of_not_balksAt hne decides] at hbatch
  unfold batchFilter
  rw [perform_bind, perform_rawOf, if_pos (own.trans hp.id_eq.symm)]
  simp only [perform_call hp.tainted_eq, Backend.batchFilter, Span.ofNat, toInt32_ofNat]
  unfold blobSize blob
  rw [hbatch]
  cases hkept : rs.keptOf paths with
  | nil => rfl
  | cons l ls =>
    -- there was room for the text of the kept lines beside the other two, so there is still
    have hroom := result.resolve_left (hkept ▸ List.cons_ne_nil l ls)
    rw [← hp.hasRoom_eq, hasRoom_singleton, hkept] at hroom
    obtain ⟨r, htake⟩ := Option.isSome_iff_exists.mp hroom
    unfold blobSize blob at htake
    simp only [htake]
    rfl

/-- Filtering ends in the way that the state says, with that result, and the instance is
    tainted exactly when that is one of the two ends at which the guest breaks down. An answer
    has as many lines as the guest has reported. The number of a handle is positive. -/
theorem filter_ends (hr : inst.Reachable) (ht : inst.tainted = false) (hpos : 0 < h.raw)
    (hne : paths ≠ []) :
    ∃ result done, (filter h paths).perform inst = (result.mapError .error, done) ∧
      (∀ r broke, inst.FilterEnds h paths r broke ↔ r = result ∧ broke = done.tainted) ∧
      done.tainted = breaks result ∧
      (∀ kept, result = .ok kept →
        ∃ code, inst.Reports h paths code ∧ code.toInt = kept.length) ∧
      ∀ e, result = .error e → e.isInternal = false ∧ e ≠ .pathEncoding := by
  obtain ⟨done, hdone, hleaves⟩ := perform_filter hr.sound ht h paths
  rw [room_eq hr.sound] at hdone hleaves
  have hends : inst.FilterEnds h paths _ _ := .of_filter hpos hne
  refine ⟨_, done, hdone, fun r broke => ⟨fun he => ?_, ?_⟩, hleaves.tainted_eq,
    fun kept hok => ?_, fun e => hends.not_isInternal⟩
  · obtain ⟨rfl, rfl⟩ := he.filter_eq hpos hne
    exact ⟨rfl, hleaves.tainted_eq.symm⟩
  · rintro ⟨rfl, rfl⟩
    rw [hleaves.tainted_eq]
    exact hends
  · rw [hok] at hends
    exact hends.reports hr.sound ht hpos hne

/-- Two of three paths are kept, the directory as it was written, and the guest reports two. -/
theorem filter_ends_kept :
    ((filter ⟨1, 1⟩ ["a", "b", "c/"]).perform fragmented).1 = .ok ["a", "c/"] ∧
      fragmented.FilterEnds ⟨1, 1⟩ ["a", "b", "c/"] (.ok ["a", "c/"]) false ∧
      ∃ code, fragmented.Reports ⟨1, 1⟩ ["a", "b", "c/"] code ∧ code.toInt = 2 := by
  have hok : ((filter ⟨1, 1⟩ ["a", "b", "c/"]).perform fragmented).1 = .ok ["a", "c/"] :=
    eq_ok_of_toOption (by decide +kernel)
  obtain ⟨result, done, hdone, hiff, htaint, hreports, -⟩ :=
    filter_ends reachable_fragmented (by decide +kernel) (show 0 < (⟨1, 1⟩ : Handle).raw by decide)
      (show ["a", "b", "c/"] ≠ [] by decide)
  cases result with
  | error e =>
    rw [hdone] at hok
    cases hok
  | ok kept =>
    obtain rfl : kept = ["a", "c/"] := by simpa [hdone, Except.mapError] using hok
    exact ⟨hok, (hiff _ _).mpr ⟨rfl, htaint.symm⟩, hreports _ rfl⟩

end Instance

end PathSieve

/-
  Filtering with several workers agrees with filtering alone.

  A chunk of a path list is a part of it, and so are the lines that are kept of it; so
  where there was room for the whole list there is room for each chunk (`filter_sublist`).
  Every worker compiles the same rules, and what a rule set keeps of the chunks is, put
  together, what it keeps of the list, because cutting into lines goes chunk by chunk
  (`merge_filter`). The other way round an answer of all chunks is the plain filter of all
  lines, also where the list as a whole would not have found room (`merge_filter_eq_ok`).
-/
import Mathlib.Data.List.Flatten
import PathSieve.Proofs.Host.Agreement
import PathSieve.Proofs.Matcher.Cutting
import PathSieve.Proofs.Matcher.Tracking

namespace PathSieve

open Instance RuleSet

variable {rs : RuleSet} {maxPages : Nat} {paths kept : List String}

namespace Instance

/-! ## Room for parts of a list -/

/-- Nothing more has to be placed when nothing is kept. -/
theorem roomUnder_append_zero (maxPages : Nat) (sizes : List Nat) :
    roomUnder maxPages (sizes ++ [0]) = roomUnder maxPages sizes := by
  unfold roomUnder Heap.fits
  simp [Heap.stack_append, Heap.stack, Heap.padded, Heap.unit]

theorem roomUnder_of_append {sizes more : List Nat}
    (h : roomUnder maxPages (sizes ++ more) = true) : roomUnder maxPages sizes = true := by
  unfold roomUnder at h ⊢
  rw [Heap.fits_iff] at h ⊢
  obtain ⟨hall, hsum⟩ := h
  rw [Heap.stack_append] at hsum
  exact ⟨fun size hsize => hall size (List.mem_append_left _ hsize), by omega⟩

/-- What is kept of a placed list is the answer as long as there is room for it. -/
theorem keep_eq_ok_iff {room : Nat → Bool} {text : String} {found : List String}
    (hfound : rs.keptLines? text = some found) (hzero : room 0 = true) :
    (Seen.found rs).keep room text = .ok kept ↔
      kept = found ∧ room (Text.Utf8.encode (Text.unlines kept)).length = true := by
  unfold Seen.keep
  simp only [hfound]
  cases found with
  | nil =>
    constructor
    · intro h
      obtain rfl := Except.ok.inj h
      exact ⟨rfl, hzero⟩
    · intro hparts
      obtain ⟨rfl, -⟩ := hparts
      rfl
  | cons l ls =>
    cases hroom : room (Text.Utf8.encode (Text.unlines (l :: ls))).length with
    | true =>
      simp only [hroom, Bool.not_true, Bool.false_eq_true, if_false, Except.ok.injEq]
      constructor
      · intro heq
        subst heq
        exact ⟨rfl, hroom⟩
      · exact fun h => h.1.symm
    | false =>
      simp only [hroom, Bool.not_false, if_true]
      constructor
      · intro h
        simp at h
      · intro hparts
        obtain ⟨rfl, h⟩ := hparts
        rw [hroom] at h
        simp at h

/-- A filter gives an answer exactly when the rule set has one for every line and there is
    room for the list, the descriptor and the result. -/
theorem filter_found_eq_ok_iff (hne : paths ≠ []) :
    (Seen.found rs).filter (roomUnder maxPages) paths = .ok kept ↔
      (rs.Decides (paths.flatMap Text.lines) ∧ kept = rs.kept (paths.flatMap Text.lines)) ∧
        roomUnder maxPages [(Text.Utf8.encode (Text.unlines paths)).length, descriptorSize,
          (Text.Utf8.encode (Text.unlines kept)).length] = true := by
  rw [← keptLines?_unlines hne]
  generalize hsize : (Text.Utf8.encode (Text.unlines paths)).length = size
  have hpaths : paths.isEmpty = false := by simpa using hne
  unfold Seen.filter
  simp only [hpaths, hsize, Bool.false_eq_true, if_false]
  cases htext : roomUnder maxPages [size] with
  | false =>
    have : ∀ result, roomUnder maxPages [size, descriptorSize, result] ≠ true := fun result h => by
      rw [@roomUnder_of_append _ [size] [descriptorSize, result] h] at htext
      simp at htext
    simp [this]
  | true =>
  cases hinfo : roomUnder maxPages [size, descriptorSize] with
  | false =>
    have : ∀ result, roomUnder maxPages [size, descriptorSize, result] ≠ true := fun result h => by
      rw [@roomUnder_of_append _ [size, descriptorSize] [result] h] at hinfo
      simp at hinfo
    simp [this]
  | true =>
  have hzero : roomUnder maxPages [size, descriptorSize, 0] = true := by
    rw [← hinfo, ← roomUnder_append_zero maxPages [size, descriptorSize]]
    rfl
  simp only [Bool.not_true, Bool.false_eq_true, if_false]
  cases hkept : rs.keptLines? (Text.unlines paths) with
  | none => simp [Seen.keep, hkept]
  | some found => rw [keep_eq_ok_iff hkept hzero, Option.some.injEq, eq_comm]

/-- Where a list is filtered, every part of it is. -/
theorem filter_sublist {chunk : List String} (hsub : chunk.Sublist paths)
    (h : (Seen.found rs).filter (roomUnder maxPages) paths = .ok kept) :
    (Seen.found rs).filter (roomUnder maxPages) chunk =
      .ok (rs.kept (chunk.flatMap Text.lines)) := by
  by_cases hchunk : chunk = []
  · subst hchunk
    rfl
  have hne : paths ≠ [] := by
    intro heq
    subst heq
    exact hchunk (List.sublist_nil.mp hsub)
  obtain ⟨⟨hdecides, rfl⟩, hroom⟩ := (filter_found_eq_ok_iff hne).mp h
  refine (filter_found_eq_ok_iff hchunk).mpr ⟨⟨fun l hl => hdecides l ?_, rfl⟩, ?_⟩
  · exact (hsub.flatMap Text.lines).subset hl
  refine Heap.fits_mono (.cons ?_ (.cons (Nat.le_refl _) (.cons ?_ .nil))) hroom
  · exact Text.length_encode_unlines_of_sublist hsub
  · exact Text.length_encode_unlines_of_sublist ((hsub.flatMap Text.lines).filter _)

/-! ## Chunks -/

/-- If a list is filtered, the chunks of it are, and make the same result. -/
theorem merge_filter {chunks : List (List String)}
    (h : (Seen.found rs).filter (roomUnder maxPages) chunks.flatten = .ok kept) :
    Chunks.merge (chunks.map ((Seen.found rs).filter (roomUnder maxPages))) = .ok kept := by
  have hchunks : ∀ chunk ∈ chunks, (Seen.found rs).filter (roomUnder maxPages) chunk =
      .ok (rs.kept (chunk.flatMap Text.lines)) := fun chunk hchunk =>
    filter_sublist (List.sublist_flatten_of_mem hchunk) h
  have hkept : kept = rs.kept (chunks.flatten.flatMap Text.lines) :=
    Except.ok.inj (h.symm.trans (filter_sublist (List.Sublist.refl _) h))
  refine Chunks.merge_eq_ok_iff.mpr
    ⟨chunks.map fun chunk => rs.kept (chunk.flatMap Text.lines), ?_, ?_⟩
  · rw [List.map_map]
    exact List.map_congr_left hchunks
  · rw [hkept, kept_flatten]

/-- What has been filtered is what the rule set keeps, also of an empty list. -/
theorem kept_of_filter (h : (Seen.found rs).filter (roomUnder maxPages) paths = .ok kept) :
    rs.Decides (paths.flatMap Text.lines) ∧ kept = rs.kept (paths.flatMap Text.lines) := by
  by_cases hne : paths = []
  · subst hne
    obtain rfl : [] = kept := Except.ok.inj h
    exact ⟨by simp [Decides], rfl⟩
  · exact ((filter_found_eq_ok_iff hne).mp h).1

/-- If all chunks of a list are filtered, the result is what is kept of the list. -/
theorem kept_of_merge_filter {chunks : List (List String)}
    (h : Chunks.merge (chunks.map ((Seen.found rs).filter (roomUnder maxPages))) = .ok kept) :
    rs.Decides (chunks.flatten.flatMap Text.lines) ∧
      kept = rs.kept (chunks.flatten.flatMap Text.lines) := by
  obtain ⟨ks, hks, rfl⟩ := Chunks.merge_eq_ok_iff.mp h
  induction chunks generalizing ks with
  | nil =>
    obtain rfl : ks = [] := by simpa using hks.symm
    exact ⟨by simp [Decides], rfl⟩
  | cons chunk chunks ih =>
    obtain ⟨k, ks, rfl⟩ : ∃ k ks', ks = k :: ks' := by
      cases ks with
      | nil => simp at hks
      | cons k ks => exact ⟨k, ks, rfl⟩
    rw [List.map_cons, List.map_cons, List.cons.injEq] at hks
    obtain ⟨hdecides, rfl⟩ := kept_of_filter hks.1
    have hmerge := Chunks.merge_eq_ok_iff.mpr ⟨ks, hks.2, rfl⟩
    obtain ⟨hdecides', hkept⟩ := ih ks hks.2 hmerge
    rw [List.flatten_cons, List.flatMap_append, decides_append, kept_append, ← hkept]
    exact ⟨⟨hdecides, hdecides'⟩, rfl⟩

/-- Compiling the rules again makes no difference to a chunk. -/
theorem workAnswer_eq_filter {text : String} {room : List Nat → Bool}
    (h : compileAnswer room text = .ok rs) :
    workAnswer room text = (Seen.found rs).filter room := by
  funext chunk
  unfold workAnswer
  rw [h]
  rfl

end Instance

/-! ## The states of matchers -/

namespace MatcherState

variable {c : Config} {text : String}

theorem mapError_eq_ok_iff {α : Type} {answer : Except Error α} {a : α} :
    answer.mapError Failure.error = .ok a ↔ answer = .ok a := by
  cases answer <;> simp [Except.mapError]

theorem lines_eq_ok_iff :
    (lines ⟨c, roomUnder maxPages⟩ paths (.ready text rs)).1 = .ok kept ↔
      (Seen.found rs).filter (roomUnder maxPages) paths = .ok kept :=
  mapError_eq_ok_iff

theorem merge_singleton_eq_ok_iff {answer : Except Error (List String)} :
    Chunks.merge [answer] = .ok kept ↔ answer = .ok kept := by
  cases answer with
  | error e => simp [Chunks.merge, Chunks.failures]
  | ok k => simp [Chunks.merge, Chunks.failures, Chunks.elements]

/-- Several workers filter chunks of a list, every one of them with the same rules. -/
theorem exists_chunks (hcompile : compileAnswer (roomUnder maxPages) text = .ok rs)
    (cpus : Nat) (paths : List String) :
    ∃ chunks : List (List String), chunks.flatten = paths ∧ ∀ kept : List String,
      (linesParallel ⟨c, roomUnder maxPages⟩ cpus paths (.ready text rs)).1 = .ok kept ↔
        Chunks.merge (chunks.map ((Seen.found rs).filter (roomUnder maxPages))) = .ok kept := by
  by_cases hcount : min (c.effectiveParallelism cpus) paths.length ≤ 1
  · refine ⟨[paths], by simp, fun kept => ?_⟩
    rw [linesParallel_of_le ⟨c, roomUnder maxPages⟩ hcount, lines_eq_ok_iff]
    exact merge_singleton_eq_ok_iff.symm
  · refine ⟨Chunks.ofList paths (min (c.effectiveParallelism cpus) paths.length),
      Chunks.flatten_ofList .., fun kept => ?_⟩
    rw [linesParallel_of_not_le ⟨c, roomUnder maxPages⟩ hcount]
    have hne : Chunks.ofList paths (min (c.effectiveParallelism cpus) paths.length) ≠ [] := by
      rw [← List.length_pos_iff, Chunks.length_ofList]
      exact Chunks.count_pos ..
    obtain ⟨chunk, chunks, hchunks⟩ := List.exists_cons_of_ne_nil hne
    rw [hchunks]
    refine mapError_eq_ok_iff.trans ?_
    rw [List.headD_cons, List.tail_cons, workAnswer_eq_filter hcompile, List.map_cons]

/-- A list that is filtered alone is filtered by several workers, with the same result. -/
theorem linesParallel_of_lines (hcompile : compileAnswer (roomUnder maxPages) text = .ok rs)
    (h : (lines ⟨c, roomUnder maxPages⟩ paths (.ready text rs)).1 = .ok kept) (cpus : Nat) :
    (linesParallel ⟨c, roomUnder maxPages⟩ cpus paths (.ready text rs)).1 = .ok kept := by
  obtain ⟨chunks, rfl, hparallel⟩ := @exists_chunks _ _ c _ hcompile cpus paths
  exact (hparallel kept).mpr (merge_filter (lines_eq_ok_iff.mp h))

/-- What several workers keep of a list is what the rule set keeps of it. -/
theorem kept_of_linesParallel (hcompile : compileAnswer (roomUnder maxPages) text = .ok rs)
    {cpus : Nat}
    (h : (linesParallel ⟨c, roomUnder maxPages⟩ cpus paths (.ready text rs)).1 = .ok kept) :
    rs.Decides (paths.flatMap Text.lines) ∧ kept = rs.kept (paths.flatMap Text.lines) := by
  obtain ⟨chunks, rfl, hparallel⟩ := @exists_chunks _ _ c _ hcompile cpus paths
  exact kept_of_merge_filter ((hparallel kept).mp h)

end MatcherState

/-! ## Matchers in a session -/

theorem Alike.eq_ok_iff {α : Type} {r r' : Except Failure α} (h : Alike r r') {a : α} :
    r = .ok a ↔ r' = .ok a := by
  unfold Alike at h
  cases r <;> cases r' <;> simp_all [Except.mapError]

/-- An open matcher whose guest has not broken down is ready with a rule set. -/
theorem Matcher.Fits.ready {l : GuestLending} {m : Matcher Guest} {state : MatcherState}
    (h : m.Fits l state) {inst : Instance Guest} (hlease : m.lease = some inst)
    (ht : inst.tainted = false) :
    ∃ rs, state = .ready m.rules rs ∧ compileAnswer l.setting.room m.rules = .ok rs := by
  cases state with
  | ready text rs =>
    obtain ⟨rfl, hcompile, -⟩ := h
    exact ⟨rs, rfl, hcompile⟩
  | broken text =>
    obtain ⟨-, inst', hlease', -, ht', -⟩ := h
    obtain rfl : inst = inst' := Option.some.inj (hlease.symm.trans hlease')
    rw [ht] at ht'
    exact absurd ht' (by decide)
  | closed text =>
    obtain ⟨-, hlease'⟩ := h
    rw [hlease] at hlease'
    exact absurd hlease' (by simp)

namespace Matcher

/-- What several workers make of a path list is what the matcher alone makes of it, for one
    order of their moves. -/
structure AgreesInParallel (m : Matcher Guest) (l : GuestLending) (rs : RuleSet) (cpus : Nat)
    (schedule : List Move) (paths : List String) : Prop where
  of_filter : ∀ kept, (m.filter paths).1 = .ok kept →
    (m.filterParallel cpus schedule paths l).1 = .ok kept
  /-- The same when the matcher has filtered the list alone before. -/
  of_filter_before : ∀ kept, (m.filter paths).1 = .ok kept →
    ((m.filter paths).2.filterParallel cpus schedule paths l).1 = .ok kept
  /-- The lines of the paths, in order, but for the empty ones and those that are ignored,
      whether or not the matcher alone would have found room. -/
  kept_eq : ∀ kept, (m.filterParallel cpus schedule paths l).1 = .ok kept →
    rs.Decides (paths.flatMap Text.lines) ∧ kept = rs.kept (paths.flatMap Text.lines)

theorem Fits.filterParallel_eq_ok_iff {l : GuestLending} {m : Matcher Guest} {state : MatcherState}
    (h : m.Fits l state) (hstock : l.Stocked) (cpus : Nat) (schedule : List Move)
    (paths kept : List String) :
    (m.filterParallel cpus schedule paths l).1 = .ok kept ↔
      (state.linesParallel l.setting cpus paths).1 = .ok kept := by
  obtain ⟨r, m', l', hparallel, -, -, halike, -⟩ := h.filterParallel hstock cpus schedule paths
  rw [hparallel]
  exact halike.eq_ok_iff

theorem Fits.agreesInParallel {l : GuestLending} {m : Matcher Guest} {text : String} {c : Config}
    (h : m.Fits l (.ready text rs)) (hstock : l.Stocked)
    (hset : l.setting = ⟨c, roomUnder maxPages⟩) (cpus : Nat) (schedule : List Move)
    (paths : List String) : m.AgreesInParallel l rs cpus schedule paths := by
  have hcompile : compileAnswer (roomUnder maxPages) text = .ok rs := by
    have := h.2.1
    rwa [hset] at this
  obtain ⟨halike, hfits⟩ := h.filter paths
  rw [hset] at halike hfits
  refine ⟨fun kept hkept => ?_, fun kept hkept => ?_, fun kept hkept => ?_⟩
  · rw [h.filterParallel_eq_ok_iff hstock, hset]
    exact MatcherState.linesParallel_of_lines hcompile (halike.eq_ok_iff.mp hkept) cpus
  · have hlines := halike.eq_ok_iff.mp hkept
    -- an answer leaves the state as it was
    have hstate : ((MatcherState.ready text rs).lines ⟨c, roomUnder maxPages⟩ paths).2 =
        .ready text rs := by
      show MatcherState.settle text rs ((Seen.found rs).filter (roomUnder maxPages) paths) = _
      rw [MatcherState.lines_eq_ok_iff.mp hlines]
      rfl
    rw [hstate] at hfits
    rw [hfits.filterParallel_eq_ok_iff hstock, hset]
    exact MatcherState.linesParallel_of_lines hcompile hlines cpus
  · rw [h.filterParallel_eq_ok_iff hstock, hset] at hkept
    exact MatcherState.kept_of_linesParallel hcompile hkept

end Matcher

/-- On a pool that has been used through matchers only, filtering with several workers
    agrees with filtering alone, for every open matcher whose guest has not broken down,
    every path list and every order in which the workers move. -/
theorem Session.filterParallel_agrees {c : Config} {poolId nextId : Nat} {s : Session}
    (hopen : Session.open? c poolId nextId = .ok s) (events : List Event) {name : Nat}
    {m : Matcher Guest} (hm : (s.after events).matcher? name = some m) {inst : Instance Guest}
    (hlease : m.lease = some inst) (ht : inst.tainted = false) :
    ∃ rs, RuleSet.ofText? (Text.Utf8.encode m.rules) = some rs ∧
      ∀ cpus schedule paths,
        m.AgreesInParallel (s.after events).lending rs cpus schedule paths := by
  obtain ⟨states, htracked⟩ := (tracked_open hopen).after events
  have hset := htracked.setting_eq.trans (setting_open hopen)
  have hfits := htracked.fits name
  rw [hm] at hfits
  cases hstate : states name with
  | none =>
    rw [hstate] at hfits
    exact absurd hfits id
  | some state =>
    rw [hstate] at hfits
    obtain ⟨rs, rfl, hcompile⟩ := Matcher.Fits.ready hfits hlease ht
    exact ⟨rs, ofText?_of_compileAnswer hcompile, fun cpus schedule paths =>
      Matcher.Fits.agreesInParallel hfits htracked.stocked hset cpus schedule paths⟩

/-- A session in which a matcher has been opened from the rule `b`. -/
def Session.withB : Session :=
  (plain 1 1).after [.request 0 (.opens ["b"]) []]

theorem Session.exists_matcher_withB :
    ∃ m inst, withB.matcher? 0 = some m ∧ m.lease = some inst ∧ inst.tainted = false ∧
      (m.filter ["a\nb", "", "c/"]).1 = .ok ["a", "c/"] := by
  have h : (withB.matcher? 0).any (fun m => m.lease.any (fun inst => !inst.tainted) &&
      (m.filter ["a\nb", "", "c/"]).1.toOption == some ["a", "c/"]) = true := by
    decide +kernel
  cases hm : withB.matcher? 0 with
  | none => simp [hm] at h
  | some m =>
    rw [hm, Option.any_some, Bool.and_eq_true] at h
    obtain ⟨hopen, hkept⟩ := h
    cases hlease : m.lease with
    | none => simp [hlease] at hopen
    | some inst =>
      exact ⟨m, inst, rfl, hlease, by simpa [hlease] using hopen,
        eq_ok_of_toOption (by simpa using hkept)⟩

theorem Session.filterParallel_agrees_withB :
    open? {} 1 1 = .ok (plain 1 1) ∧ ∃ m inst, withB.matcher? 0 = some m ∧
      m.lease = some inst ∧ inst.tainted = false ∧ ∀ schedule,
        (m.filterParallel 2 schedule ["a\nb", "", "c/"] withB.lending).1 = .ok ["a", "c/"] := by
  obtain ⟨m, inst, hm, hlease, ht, hkept⟩ := exists_matcher_withB
  obtain ⟨rs, -, hagrees⟩ := filterParallel_agrees (open?_plain 1 1) _ hm hlease ht
  exact ⟨open?_plain 1 1, m, inst, hm, hlease, ht, fun schedule =>
    (hagrees 2 schedule _).of_filter _ hkept⟩

end PathSieve

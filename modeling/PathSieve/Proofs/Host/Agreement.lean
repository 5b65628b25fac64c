/-
  Filtering a path list agrees with asking about its lines one by one.

  The two go separate ways: a filter carries the whole list as one text and fetches the
  kept lines as another, while a question carries one path and brings a verdict. When a
  filter has answered, there is a rule set under its handle that has a verdict on every
  line (`filter_eq_ok`), there is room for each line alone because there was room
  for all of them, and so each question is answered with that verdict (`ask_line`).
-/
import PathSieve.Matcher.Basic
import PathSieve.Proofs.Host.Answers
import PathSieve.Proofs.Host.Touch

namespace PathSieve.Instance

open Guest PathSieve.Action RuleSet

variable {inst : Instance Guest} {h : Handle} {paths kept : List String}

/-- What has to be so when a filter gives an answer. -/
structure Filtered (seen : Seen) (room : List Nat → Bool) (paths kept : List String)
    (rs : RuleSet) : Prop where
  found : seen = .found rs
  room : room [(Text.Utf8.encode (Text.unlines paths)).length] = true
  decides : rs.Decides (paths.flatMap Text.lines)
  kept_eq : kept = rs.kept (paths.flatMap Text.lines)

theorem filter_eq_ok {seen : Seen} {room : List Nat → Bool} (hne : paths ≠ [])
    (hok : seen.filter room paths = .ok kept) : ∃ rs, Filtered seen room paths kept rs := by
  unfold Seen.filter Seen.keep at hok
  simp only at hok
  rw [if_neg (by simpa using hne)] at hok
  split at hok
  · simp at hok
  next hroom =>
  split at hok
  · simp at hok
  split at hok
  · simp at hok
  · simp at hok
  next rs =>
  have hkept : rs.keptLines? (Text.unlines paths) = some kept := by
    split at hok
    · simp at hok
    · next h' => simpa [h'] using hok
    · next h' =>
      split at hok
      · simp at hok
      · simpa [h'] using hok
  obtain ⟨hdecides, hkept⟩ := (keptLines?_unlines hne).mp hkept
  exact ⟨rs, rfl, by simpa using hroom, hdecides, hkept⟩

/-- A question about a line of a list that has been filtered is answered by the rule set. -/
theorem ask_line {rs : RuleSet} (hf : Filtered (inst.look h) inst.guest.hasRoom paths kept rs)
    {done : Instance Guest} (hleaves : inst.Leaves done inst.guest.rules false) {q : String}
    (hq : q ∈ paths.flatMap Text.lines) (hq0 : q ≠ "") :
    (done.look h).ask done.guest.hasRoom (pathOfLine q).1 (pathOfLine q).2 =
      .ok ((rs.verdictOfLine? q).getD .unmatched) := by
  have hne : paths ≠ [] := by
    intro heq
    subst heq
    simp at hq
  have hlen : (pathOfLine q).1.length ≤ (Text.Utf8.encode (Text.unlines paths)).length := by
    have := length_pathOfLine_le q
    have := Text.length_lt_weight_of_mem hq
    rw [Text.weight_flatMap_lines, ← Text.length_encode_unlines hne] at this
    omega
  have hlook : done.look h = .found rs := by
    rw [← hf.found]
    unfold look
    rw [hleaves.id_eq, hleaves.rules_eq]
  obtain ⟨path, hpath⟩ := exists_encode_eq_pathOfLine q
  obtain ⟨v, hv⟩ := Option.isSome_iff_exists.mp (hf.decides q hq hq0)
  have hverdict : rs.verdict? (pathOfLine q).1 (pathOfLine q).2 = some v := hv
  unfold Seen.ask Seen.verdict
  rw [hasRoom_singleton_mono (hleaves.heap_eq rfl) hleaves.later hlen hf.room, hlook]
  simp only [Bool.not_true, Bool.false_eq_true, if_false, hverdict, hv, Option.getD_some]
  rw [hpath, Text.Utf8.decode?_encode]
  rfl

/-- A filter has kept of a path list what single questions say is to be kept: `judge` is the
    verdict on each line that is not empty, before the filter and after it. -/
structure AgreesWithAsk (inst : Instance Guest) (h : Handle) (paths kept : List String)
    (judge : String → Verdict) : Prop where
  asked : ∀ q ∈ paths.flatMap Text.lines, q ≠ "" →
    ((ask h (pathOfLine q).1 (pathOfLine q).2).perform inst).1 = .ok (judge q)
  asked_after : ∀ q ∈ paths.flatMap Text.lines, q ≠ "" →
    ((ask h (pathOfLine q).1 (pathOfLine q).2).perform ((filter h paths).perform inst).2).1 =
      .ok (judge q)
  /-- The lines of the paths, in order and as often as they occur, but for the empty ones
      and those that are ignored. -/
  kept_eq : kept = (paths.flatMap Text.lines).filter fun q => q ≠ "" ∧ judge q ≠ .ignored
  /-- Paths that are lines are kept or left out as they are. -/
  kept_eq_of_plain : (∀ p ∈ paths, p ≠ "" ∧ '\n' ∉ p.toList) →
    kept = paths.filter fun p => judge p ≠ .ignored
  /-- A matcher on the instance says the same. -/
  matcher : ∀ m : Matcher Guest, m.lease = some inst → m.handle = h →
    (m.filter paths).1 = .ok kept ∧
      ∀ q ∈ paths.flatMap Text.lines, q ≠ "" →
        (m.askBytes (pathOfLine q).1 (pathOfLine q).2).1 = .ok (judge q)

/-- A single question about a line after the filter, or before it. -/
theorem perform_ask_line {rs : RuleSet}
    (hf : Filtered (inst.look h) inst.guest.hasRoom paths kept rs) {done : Instance Guest}
    (hs : done.guest.Sound) (hleaves : inst.Leaves done inst.guest.rules false) {q : String}
    (hq : q ∈ paths.flatMap Text.lines) (hq0 : q ≠ "") :
    ((ask h (pathOfLine q).1 (pathOfLine q).2).perform done).1 =
      .ok ((rs.verdictOfLine? q).getD .unmatched) := by
  obtain ⟨_, ha, -⟩ := perform_ask hs hleaves.tainted_eq h (pathOfLine q).1 (pathOfLine q).2
  rw [ha, ask_line hf hleaves hq hq0]
  rfl

theorem Filtered.kept_eq_filter {seen : Seen} {room : List Nat → Bool} {rs : RuleSet}
    (hf : Filtered seen room paths kept rs) :
    kept = (paths.flatMap Text.lines).filter fun q =>
      q ≠ "" ∧ (rs.verdictOfLine? q).getD .unmatched ≠ .ignored := by
  rw [hf.kept_eq]
  refine List.filter_congr fun q hq => ?_
  by_cases hq0 : q = ""
  · simp [hq0]
  · obtain ⟨v, hv⟩ := Option.isSome_iff_exists.mp (hf.decides q hq hq0)
    have hq1 : q.isEmpty = false := by simpa using hq0
    cases v <;> simp [hq0, hq1, hv]

/-- When a filter gives an answer, asking about any line that is not empty gives one too,
    and the filter has kept the lines that these answers do not call ignored. -/
theorem filter_agrees_with_ask (hr : inst.Reachable) (ht : inst.tainted = false) (h : Handle)
    (hne : paths ≠ []) (hok : ((filter h paths).perform inst).1 = .ok kept) :
    ∃ judge, inst.AgreesWithAsk h paths kept judge := by
  have hs := hr.sound
  obtain ⟨done, hdone, hleaves⟩ := perform_filter hs ht h paths
  have hanswer : (inst.look h).filter inst.guest.hasRoom paths = .ok kept := by
    rw [hdone] at hok
    cases ha : (inst.look h).filter inst.guest.hasRoom paths with
    | error e => simp [ha, Except.mapError] at hok
    | ok kept' => simpa [ha, Except.mapError] using hok
  obtain ⟨rs, hf⟩ := filter_eq_ok hne hanswer
  rw [hanswer] at hleaves
  have hs' : done.guest.Sound := by
    have := invariant_sound.filter h paths inst hs
    rwa [hdone] at this
  have hask := fun q hq hq0 => perform_ask_line hf hs (.refl ht) (q := q) hq hq0
  refine ⟨fun q => (rs.verdictOfLine? q).getD .unmatched, hask, ?_, hf.kept_eq_filter, ?_, ?_⟩
  · intro q hq hq0
    rw [hdone]
    exact perform_ask_line hf hs' hleaves hq hq0
  · intro hplain
    rw [hf.kept_eq_filter, Text.flatMap_lines_eq_self fun p hp => (hplain p hp).2]
    refine List.filter_congr fun p hp => ?_
    simp [(hplain p hp).1]
  · intro m hlease heq
    subst heq
    unfold Matcher.filter Matcher.askBytes Matcher.use
    simp only [hlease]
    exact ⟨hok, hask⟩

theorem eq_ok_of_toOption {ε α : Type} {result : Except ε α} {a : α}
    (h : result.toOption = some a) : result = .ok a := by
  cases result with
  | error failure => simp [Except.toOption] at h
  | ok b => exact congrArg _ (Option.some.inj h)

/-- An instance on which the rule `b` has been compiled. -/
def ignoringB : Instance Guest :=
  ((compile "b").perform
    { id := 1, poolId := 1, name := "matcher_1", guest := Guest.fresh "matcher_1" 1 1 }).2

theorem reachable_ignoringB : ignoringB.Reachable :=
  invariant_reachable.compile "b" _ (.fresh 1 1 "matcher_1" 1 1)

theorem filter_agrees_with_ask_ignoringB :
    ((filter ⟨1, 1⟩ ["a\nb", "", "c/"]).perform ignoringB).1 = .ok ["a", "c/"] ∧
      ∃ judge, ignoringB.AgreesWithAsk ⟨1, 1⟩ ["a\nb", "", "c/"] ["a", "c/"] judge := by
  have hok : ((filter ⟨1, 1⟩ ["a\nb", "", "c/"]).perform ignoringB).1 = .ok ["a", "c/"] :=
    eq_ok_of_toOption (by decide +kernel)
  exact ⟨hok, filter_agrees_with_ask reachable_ignoringB (by decide +kernel) ⟨1, 1⟩ (by decide) hok⟩

end PathSieve.Instance

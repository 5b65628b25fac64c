/-
  Where the chunks of a list begin and end.

  Ranges span a stretch of places when each begins where the one before it ends (`Spans`), and
  then their slices of a list, one after the other, are that stretch of it (`Spans.flatten`).
  The ranges of chunks span the whole list. All are of one length but the last, which takes
  what is over (`ranges_eq`).

  A machine computes the ranges with words, and a word holds only so much. `ranges?` is that
  computation with every operation checked: it fails at the first sum or product that is not a
  word, and at a division by zero. It never fails, however long or short the words are.
-/
import PathSieve.Matcher.Chunks

namespace PathSieve.Chunks

variable {α : Type}

theorem count_pos (len workers : Nat) : 0 < count len workers := by
  unfold count
  omega

/-! ## Ranges that span a list -/

/-- Each range begins where the one before it ends, and they lead from `start` to `stop`. -/
def Spans : Nat → List (Nat × Nat) → Nat → Prop
  | start, [], stop => start = stop
  | start, r :: rs, stop => r.1 = start ∧ start ≤ r.2 ∧ Spans r.2 rs stop

theorem Spans.le {start stop : Nat} {rs : List (Nat × Nat)} (h : Spans start rs stop) :
    start ≤ stop := by
  induction rs generalizing start with
  | nil => exact Nat.le_of_eq h
  | cons r rs ih => exact Nat.le_trans h.2.1 (ih h.2.2)

theorem Spans.append {start middle stop : Nat} {rs ss : List (Nat × Nat)}
    (h : Spans start rs middle) (h' : Spans middle ss stop) : Spans start (rs ++ ss) stop := by
  induction rs generalizing start with
  | nil => exact h ▸ h'
  | cons r rs ih => exact ⟨h.1, h.2.1, ih h.2.2⟩

/-- What ranges cut out of a list is the stretch that they span. -/
theorem Spans.flatten {start stop : Nat} {rs : List (Nat × Nat)} (h : Spans start rs stop)
    (xs : List α) : (rs.map (slice xs)).flatten = (xs.drop start).take (stop - start) := by
  induction rs generalizing start with
  | nil =>
    obtain rfl : start = stop := h
    simp
  | cons r rs ih =>
    obtain ⟨rfl, hle, hrest⟩ := h
    have hlen : stop - r.1 = (r.2 - r.1) + (stop - r.2) := by
      have := hrest.le
      omega
    rw [List.map_cons, List.flatten_cons, ih hrest, slice, hlen, List.take_add, List.drop_drop,
      Nat.add_sub_cancel' hle]

/-- Ranges of one length, from the first place on. -/
theorem spans_even (base k : Nat) :
    Spans 0 ((List.range k).map fun i => (i * base, i * base + base)) (k * base) := by
  induction k with
  | zero => simp [Spans]
  | succ k ih =>
    rw [List.range_succ, List.map_append]
    refine ih.append ⟨rfl, Nat.le_add_right _ _, ?_⟩
    exact (Nat.succ_mul k base).symm

/-- All chunks but the last have one length. -/
theorem ranges_eq (len workers : Nat) :
    ranges len workers =
      ((List.range (count len workers - 1)).map fun i =>
        (i * (len / count len workers),
          i * (len / count len workers) + len / count len workers)) ++
      [((count len workers - 1) * (len / count len workers), len)] := by
  have hpos := count_pos len workers
  unfold ranges
  generalize count len workers = n at *
  obtain ⟨k, rfl⟩ := Nat.exists_eq_add_of_lt hpos
  simp only [Nat.zero_add, Nat.add_sub_cancel, List.range_succ, List.map_append, List.map_singleton,
    if_true]
  congr 1
  refine List.map_congr_left fun i hi => ?_
  rw [if_neg (by have := List.mem_range.mp hi; omega)]

/-- The chunks but the last, and then what is over. -/
theorem count_pred_mul_add (len workers : Nat) :
    (count len workers - 1) * (len / count len workers) +
      (len / count len workers + len % count len workers) = len := by
  have hpos := count_pos len workers
  generalize count len workers = n at *
  obtain ⟨k, rfl⟩ := Nat.exists_eq_add_of_lt hpos
  have hdiv := Nat.div_add_mod len (0 + k + 1)
  rw [Nat.zero_add, Nat.succ_mul] at hdiv
  rw [Nat.zero_add, Nat.add_sub_cancel]
  omega

theorem spans_ranges (len workers : Nat) : Spans 0 (ranges len workers) len := by
  rw [ranges_eq]
  exact (spans_even _ _).append ⟨rfl, Nat.le.intro (count_pred_mul_add len workers), rfl⟩

/-- The chunks of a list are the list. -/
theorem flatten_ofList (xs : List α) (workers : Nat) : (ofList xs workers).flatten = xs := by
  rw [ofList, (spans_ranges xs.length workers).flatten xs]
  simp

/-- The ranges of the chunks of `len` elements for a number of workers. -/
structure Partitions (len workers : Nat) (rs : List (Nat × Nat)) : Prop where
  /-- There are as many as there are workers, but no more than elements, and at least one. -/
  length_eq : rs.length = max 1 (min workers (max len 1))
  spans : Spans 0 rs len
  nonempty : 0 < len → ∀ r ∈ rs, r.1 < r.2
  even : ∀ r ∈ rs.dropLast, r.2 = r.1 + len / rs.length
  rest : ∀ r ∈ rs.getLast?, r.2 = r.1 + (len / rs.length + len % rs.length)

theorem partitions_ranges (len workers : Nat) : Partitions len workers (ranges len workers) where
  length_eq := length_ranges len workers
  spans := spans_ranges len workers
  nonempty hlen := by
    have hbase : 0 < len / count len workers := by
      refine Nat.div_pos ?_ (count_pos len workers)
      unfold count
      omega
    have hsum := count_pred_mul_add len workers
    rw [ranges_eq]
    simp only [List.mem_append, List.mem_map, List.mem_singleton]
    rintro r (⟨i, -, rfl⟩ | rfl)
    · exact Nat.lt_add_of_pos_right hbase
    · dsimp only
      omega
  even r hr := by
    rw [length_ranges]
    rw [ranges_eq, List.dropLast_concat] at hr
    obtain ⟨i, -, rfl⟩ := List.mem_map.mp hr
    rfl
  rest r hr := by
    rw [length_ranges]
    rw [ranges_eq, List.getLast?_concat, Option.mem_some_iff] at hr
    rw [← hr]
    exact (count_pred_mul_add len workers).symm

/-! ## Ranges in machine words -/

section Words

variable {bits : Nat}

/-- The sum of two words, if that is a word. -/
def sum? (a b : BitVec bits) : Option (BitVec bits) :=
  if a.uaddOverflow b then none else some (a + b)

/-- The product of two words, if that is a word. -/
def product? (a b : BitVec bits) : Option (BitVec bits) :=
  if a.umulOverflow b then none else some (a * b)

/-- The quotient of two words, if there is one. -/
def quotient? (a b : BitVec bits) : Option (BitVec bits) :=
  if b = 0 then none else some (a / b)

def larger (a b : BitVec bits) : BitVec bits :=
  if a < b then b else a

def smaller (a b : BitVec bits) : BitVec bits :=
  if a < b then a else b

/-- Where chunk `i` of `n` begins and ends. -/
def range? (len n base i : BitVec bits) : Option (Nat × Nat) := do
  let start ← product? i base
  let next ← sum? i (.ofNat bits 1)
  let stop ← if next = n then some len else sum? start base
  return (start.toNat, stop.toNat)

/-- Where each of the chunks of a list begins and ends. -/
def ranges? (len workers : BitVec bits) : Option (List (Nat × Nat)) := do
  let n := larger (.ofNat bits 1) (smaller workers (larger len (.ofNat bits 1)))
  let base ← quotient? len n
  (List.range n.toNat).mapM fun i => range? len n base (BitVec.ofNat bits i)

variable {a b : BitVec bits}

/-- A sum is a word if another word is not smaller. -/
theorem exists_sum? (c : BitVec bits) (h : a.toNat + b.toNat ≤ c.toNat) :
    ∃ d, sum? a b = some d ∧ d.toNat = a.toNat + b.toNat := by
  have hfits : ¬ a.uaddOverflow b := by
    have := c.isLt
    simp only [BitVec.uaddOverflow, decide_eq_true_eq]
    omega
  exact ⟨a + b, if_neg hfits, BitVec.toNat_add_of_not_uaddOverflow hfits⟩

/-- A product is a word if another word is not smaller. -/
theorem exists_product? (c : BitVec bits) (h : a.toNat * b.toNat ≤ c.toNat) :
    ∃ d, product? a b = some d ∧ d.toNat = a.toNat * b.toNat := by
  have hfits : ¬ a.umulOverflow b := by
    have := c.isLt
    simp only [BitVec.umulOverflow, decide_eq_true_eq]
    omega
  exact ⟨a * b, if_neg hfits, BitVec.toNat_mul_of_not_umulOverflow hfits⟩

theorem toNat_larger (a b : BitVec bits) : (larger a b).toNat = max a.toNat b.toNat := by
  unfold larger
  split <;> rename_i h <;> rw [BitVec.lt_def] at h <;> omega

theorem toNat_smaller (a b : BitVec bits) : (smaller a b).toNat = min a.toNat b.toNat := by
  unfold smaller
  split <;> rename_i h <;> rw [BitVec.lt_def] at h <;> omega

/-- Neither where a chunk begins nor where it ends is too large for a word. -/
theorem range?_eq {len n base i : BitVec bits} (hbits : 0 < bits) (hi : i.toNat < n.toNat)
    (hfit : n.toNat * base.toNat ≤ len.toNat) :
    range? len n base i = some (i.toNat * base.toNat,
      if i.toNat + 1 = n.toNat then len.toNat else i.toNat * base.toNat + base.toNat) := by
  have hone : (BitVec.ofNat bits 1).toNat = 1 := BitVec.toNat_one hbits
  have hend : i.toNat * base.toNat + base.toNat ≤ len.toNat := by
    rw [← Nat.succ_mul]
    exact Nat.le_trans (Nat.mul_le_mul_right _ hi) hfit
  obtain ⟨start, hstart, hstart'⟩ := exists_product? (a := i) (b := base) len (by omega)
  obtain ⟨next, hnext, hnext'⟩ := exists_sum? (a := i) (b := .ofNat bits 1) n (by omega)
  obtain ⟨stop, hstop, hstop'⟩ := exists_sum? (a := start) (b := base) len (by omega)
  have hlast : next = n ↔ i.toNat + 1 = n.toNat := by
    rw [← BitVec.toNat_inj, hnext', hone]
  unfold range?
  simp only [hstart, hnext, hstop, hlast, Option.bind_eq_bind, Option.bind_some]
  split <;> simp [hstart', hstop']

theorem mapM_eq_some_map {β γ : Type} {f : β → Option γ} {g : β → γ} {xs : List β}
    (h : ∀ x ∈ xs, f x = some (g x)) : xs.mapM f = some (xs.map g) := by
  induction xs with
  | nil => rfl
  | cons x xs ih =>
    rw [List.mapM_cons, h x List.mem_cons_self, ih fun y hy => h y (List.mem_cons_of_mem x hy)]
    rfl

/-- Words are enough for the ranges of any list whose length is a word. -/
theorem ranges?_eq (hbits : 0 < bits) (len workers : BitVec bits) :
    ranges? len workers = some (ranges len.toNat workers.toNat) := by
  have hcount : (larger (.ofNat bits 1) (smaller workers (larger len (.ofNat bits 1)))).toNat =
      count len.toNat workers.toNat := by
    rw [toNat_larger, toNat_smaller, toNat_larger, BitVec.toNat_one hbits, count]
  unfold ranges?
  generalize larger (.ofNat bits 1) (smaller workers (larger len (.ofNat bits 1))) = n at *
  have hpos : 0 < n.toNat := hcount ▸ count_pos _ _
  have hzero : n ≠ 0 := fun h => by simp [h] at hpos
  have hbase : (len / n).toNat = len.toNat / n.toNat := BitVec.toNat_udiv
  simp only [quotient?, if_neg hzero, Option.bind_eq_bind, Option.bind_some]
  rw [ranges, ← hcount, ← hbase]
  refine mapM_eq_some_map fun i hi => ?_
  have hi := List.mem_range.mp hi
  have hword : (BitVec.ofNat bits i).toNat = i := by
    rw [BitVec.toNat_ofNat, Nat.mod_eq_of_lt (by have := n.isLt; omega)]
  have hfit : n.toNat * (len / n).toNat ≤ len.toNat := by
    rw [hbase, Nat.mul_comm]
    exact Nat.div_mul_le_self _ _
  rw [range?_eq hbits (by rwa [hword]) hfit, hword]

/-- Whatever the length of a list and the number of workers, the ranges of its chunks begin at
    its first place, join without a gap and end at its last one; none of an inhabited list is
    empty, and all but the last are equally long. Computing them never leaves the words, and
    the slices at them are the list again. -/
theorem ranges_exact (hbits : 0 < bits) (len workers : BitVec bits) :
    ranges? len workers = some (ranges len.toNat workers.toNat) ∧
      Partitions len.toNat workers.toNat (ranges len.toNat workers.toNat) ∧
      ∀ xs : List α, xs.length = len.toNat →
        ((ranges len.toNat workers.toNat).map (slice xs)).flatten = xs := by
  refine ⟨ranges?_eq hbits len workers, partitions_ranges _ _, fun xs hlen => ?_⟩
  rw [← hlen]
  exact flatten_ofList xs workers.toNat

/-- Ten elements for four workers: the last chunk takes the two that are over. -/
theorem ranges_exact_ten :
    0 < 64 ∧ [3, 1, 4, 1, 5, 9, 2, 6, 5, 3].length = (10#64).toNat ∧
      ranges? 10#64 4#64 = some [(0, 2), (2, 4), (4, 6), (6, 10)] ∧
      Partitions 10 4 [(0, 2), (2, 4), (4, 6), (6, 10)] ∧
      ([(0, 2), (2, 4), (4, 6), (6, 10)].map (slice [3, 1, 4, 1, 5, 9, 2, 6, 5, 3])).flatten =
        [3, 1, 4, 1, 5, 9, 2, 6, 5, 3] := by
  obtain ⟨hwords, hranges, hslices⟩ := ranges_exact (α := Nat) (by decide) 10#64 4#64
  exact ⟨by decide, rfl, hwords, hranges, hslices _ rfl⟩

/-- There are never more chunks than elements, and never none. -/
example : ranges 2 8 = [(0, 1), (1, 2)] ∧ ranges 5 0 = [(0, 5)] ∧ ranges 0 4 = [(0, 0)] := by
  decide

end Words

end PathSieve.Chunks

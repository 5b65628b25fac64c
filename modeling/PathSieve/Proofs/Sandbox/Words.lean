/-
  Numbers on their way between a host and a guest.

  Places and lengths cross as 32-bit integers with a sign; only their bits count. A number
  below 2^32 comes back as it went (`word_ofWord`), also as four bytes in the memory
  (`wordOf_wordBytes`). A positive number below 2^31 stays positive, so that a length
  within the largest size that can be asked for is not taken for a negative one.
-/
import PathSieve.Host.Matching
import PathSieve.Sandbox.Guest

namespace PathSieve

theorem uint32_ofNat_eq_zero_iff {n : Nat} (h : n < 0x100000000) : UInt32.ofNat n = 0 ↔ n = 0 := by
  rw [← UInt32.toNat_inj, UInt32.toNat_ofNat_of_lt' h]
  rfl

theorem toUInt32_eq_zero_iff {n : Int32} : n.toUInt32 = 0 ↔ n = 0 := by
  constructor
  · intro hn
    rw [← Int32.toInt32_toUInt32 n, hn]
    rfl
  · intro heq
    subst heq
    rfl

namespace Guest

@[simp] theorem word_toInt32 (n : UInt32) : word n.toInt32 = n.toNat := rfl

@[simp] theorem toUInt32_ofWord (n : Nat) : (ofWord n).toUInt32 = UInt32.ofNat n := rfl

theorem toInt32_eq_ofWord (n : UInt32) : n.toInt32 = ofWord n.toNat := by
  rw [ofWord, UInt32.ofNat_toNat]

@[simp] theorem toInt32_ofNat (n : Nat) : (UInt32.ofNat n).toInt32 = ofWord n := rfl

@[simp] theorem int32_ofNat (n : Nat) : Int32.ofNat n = ofWord n := rfl

theorem word_ofWord {n : Nat} (h : n < 0x100000000) : word (ofWord n) = n :=
  UInt32.toNat_ofNat_of_lt' h

theorem word_inj {a b : Int32} : word a = word b ↔ a = b := by
  refine ⟨fun h => ?_, congrArg word⟩
  rw [← a.toInt32_toUInt32, UInt32.toNat_inj.mp h, b.toInt32_toUInt32]

@[simp] theorem ofWord_word (n : Int32) : ofWord (word n) = n :=
  word_inj.mp (word_ofWord n.toUInt32.toNat_lt)

/-- An integer that is not negative is its own unsigned value, and that is below 2^31. -/
theorem toInt_eq_word {n : Int32} (h : 0 ≤ n) : n.toInt = word n ∧ word n < 0x80000000 := by
  have hbits : n.toInt =
      if 2 * word n < 0x100000000 then (word n : Int) else (word n : Int) - 0x100000000 :=
    BitVec.toInt_eq_toNat_cond n.toBitVec
  have hlt : word n < 0x100000000 := n.toUInt32.toNat_lt
  have hzero : (0 : Int32).toInt = 0 := rfl
  rw [Int32.le_iff_toInt_le, hzero] at h
  split at hbits <;> omega

theorem toInt_ofWord {n : Nat} (h : n < 0x80000000) : (ofWord n).toInt = n :=
  Int32.toInt_ofNat_of_lt h

theorem ofWord_eq_zero_iff {n : Nat} (h : n < 0x100000000) : ofWord n = 0 ↔ n = 0 := by
  constructor
  · intro he
    rw [← word_ofWord h, he]
    rfl
  · intro heq
    subst heq
    rfl

theorem ofWord_pos {n : Nat} (h0 : 0 < n) (h : n < 0x80000000) : 0 < ofWord n := by
  rw [Int32.lt_iff_toInt_lt, toInt_ofWord h]
  exact Int.natCast_pos.mpr h0

theorem not_ofWord_le_zero {n : Nat} (h0 : 0 < n) (h : n < 0x80000000) : ¬ ofWord n ≤ 0 := by
  rw [Int32.le_iff_toInt_le, toInt_ofWord h]
  exact Int.not_le.mpr (Int.natCast_pos.mpr h0)

theorem not_ofWord_neg {n : Nat} (h : n < 0x80000000) : ¬ ofWord n < 0 := by
  rw [Int32.lt_iff_toInt_lt, toInt_ofWord h]
  exact Int.not_lt.mpr (Int.natCast_nonneg n)

@[simp] theorem length_wordBytes (n : Nat) : (wordBytes n).length = 4 := rfl

theorem wordOf_wordBytes {n : Nat} (h : n < 0x100000000) :
    Instance.wordOf (UInt8.ofNat n) (UInt8.ofNat (n / 0x100)) (UInt8.ofNat (n / 0x10000))
      (UInt8.ofNat (n / 0x1000000)) = UInt32.ofNat n := by
  unfold Instance.wordOf
  congr 1
  simp only [UInt8.toNat_ofNat']
  omega

end Guest

end PathSieve

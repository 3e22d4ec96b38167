import Mathlib.Tactic.Common

/-!
# One-bit updates of a bitmap

Reading one bit of a fixed-width word after one bit was set or cleared, and the lowest set bit
of a nonzero word.
-/

namespace Rpma.Lib.Bitmap

variable {w : Nat} (x : BitVec w) {i k : Nat}

theorem getLsbD_one_shiftLeft (hi : i < w) :
    ((1#w) <<< k).getLsbD i = decide (i = k) := by
  rw [BitVec.getLsbD_shiftLeft, BitVec.getLsbD_one]
  by_cases hik : i < k
  · simp [hik, Nat.ne_of_lt hik]
  · have : (i - k = 0) ↔ i = k := by omega
    simp [hi, hik, Nat.zero_lt_of_lt hi, this]

/-- `x | (1 << k)`. -/
theorem getLsbD_setBit (hi : i < w) :
    (x ||| ((1#w) <<< k)).getLsbD i = (x.getLsbD i || decide (i = k)) := by
  rw [BitVec.getLsbD_or, getLsbD_one_shiftLeft hi]

/-- `x & ~(1 << k)`. -/
theorem getLsbD_clearBit (hi : i < w) :
    (x &&& ~~~((1#w) <<< k)).getLsbD i = (x.getLsbD i && !decide (i = k)) := by
  rw [BitVec.getLsbD_and, BitVec.getLsbD_not, getLsbD_one_shiftLeft hi]
  simp [hi]

/-- Some bit of a nonzero word is set. -/
theorem ne_zero_iff_getLsbD : x ≠ 0#w ↔ ∃ i < w, x.getLsbD i = true := by
  constructor
  · intro hx
    by_contra hne
    refine hx (BitVec.eq_of_getLsbD_eq fun i hi => ?_)
    have : x.getLsbD i ≠ true := fun h => hne ⟨i, hi, h⟩
    simpa using this
  · rintro ⟨i, -, hi⟩ rfl
    simp at hi

/-- The lowest set bit lies below the width and is set. -/
theorem ctz_spec (hx : x ≠ 0#w) :
    x.ctz.toNat < w ∧ x.getLsbD x.ctz.toNat = true ∧
      ∀ i < x.ctz.toNat, x.getLsbD i = false := by
  have hset := BitVec.getLsbD_true_ctz_of_ne_zero hx
  refine ⟨BitVec.lt_of_getLsbD hset, hset, fun i hi => BitVec.getLsbD_false_of_lt_ctz hi⟩

end Rpma.Lib.Bitmap

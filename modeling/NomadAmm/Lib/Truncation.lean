import Mathlib.Algebra.Order.Ring.Int
import Mathlib.Tactic.Ring
import Mathlib.Tactic.Linarith

/-! Division that truncates toward zero, as signed machine integers divide. It is odd and
keeps the sign of what it divides, and it is monotone in the fraction it rounds. -/

namespace NomadAmm.Lib.Truncation

variable {a b c d : Int} {k n : Nat}

/-- A truncated quotient is the quotient of the magnitudes, with the sign put back. -/
theorem tdiv_natCast (a : Int) (n : Nat) : a.tdiv n = a.sign * (a.natAbs / n : Nat) := by
  have hmag := Int.sign_mul_natAbs a
  calc a.tdiv n = (a.sign * a.natAbs).tdiv n := by rw [hmag]
    _ = a.sign * (a.natAbs / n : Nat) := by
      rcases lt_trichotomy a 0 with hneg | rfl | hpos
      · rw [Int.sign_eq_neg_one_of_neg hneg, Int.neg_one_mul, Int.neg_one_mul, Int.neg_tdiv,
          Int.ofNat_tdiv]
      · simp
      · rw [Int.sign_eq_one_of_pos hpos, Int.one_mul, Int.one_mul, Int.ofNat_tdiv]

theorem natAbs_tdiv_natCast (a : Int) (n : Nat) : (a.tdiv n).natAbs = a.natAbs / n :=
  Int.natAbs_tdiv a n

/-- Where no sign is lost, truncation is the floor. -/
theorem tdiv_bounds (ha : 0 ≤ a) (hb : 0 < b) : a.tdiv b * b ≤ a ∧ a < (a.tdiv b + 1) * b := by
  rw [Int.tdiv_eq_ediv_of_nonneg ha]
  exact ⟨Int.ediv_mul_le _ hb.ne', Int.lt_ediv_add_one_mul_self _ hb⟩

theorem tdiv_le_tdiv_of_nonneg (ha : 0 ≤ a) (hb : 0 < b) (hd : 0 < d) (h : a * d ≤ c * b) :
    a.tdiv b ≤ c.tdiv d := by
  obtain ⟨hfloor, -⟩ := tdiv_bounds ha hb
  refine Int.le_tdiv_of_mul_le hd ?_
  have hscaled : a.tdiv b * d * b ≤ c * b := by
    calc a.tdiv b * d * b = a.tdiv b * b * d := by ring
      _ ≤ a * d := Int.mul_le_mul_of_nonneg_right hfloor hd.le
      _ ≤ c * b := h
  exact Int.le_of_mul_le_mul_right hscaled hb

/-- **Truncation is monotone in the fraction.** -/
theorem tdiv_le_tdiv_of_mul_le (hb : 0 < b) (hd : 0 < d) (h : a * d ≤ c * b) :
    a.tdiv b ≤ c.tdiv d := by
  rcases le_or_gt 0 a with ha | ha
  · exact tdiv_le_tdiv_of_nonneg ha hb hd h
  · rcases le_or_gt 0 c with hc | hc
    · have hneg : a.tdiv b ≤ 0 := by
        have := Int.tdiv_nonneg (show 0 ≤ -a by omega) hb.le
        rw [Int.neg_tdiv] at this
        omega
      exact hneg.trans (Int.tdiv_nonneg hc hd.le)
    · -- two negative fractions: compare their opposites
      have hopp : (-c).tdiv d ≤ (-a).tdiv b := by
        refine tdiv_le_tdiv_of_nonneg (by omega) hd hb ?_
        linarith
      rw [Int.neg_tdiv, Int.neg_tdiv] at hopp
      omega

/-- A fraction of magnitude at most `k` truncates to one. -/
theorem natAbs_tdiv_le (h : a.natAbs ≤ k * n) : (a.tdiv n).natAbs ≤ k := by
  rw [natAbs_tdiv_natCast]
  exact Nat.div_le_of_le_mul (by rw [Nat.mul_comm]; exact h)

end NomadAmm.Lib.Truncation

import Mathlib.Algebra.Order.Field.Basic
import Mathlib.Tactic.Ring
import Mathlib.Tactic.Linarith

/-! The exact constant-product curve of depth `s` at a marginal price `P`: reserves `s` and
`P * s`, no rounding. A deeper curve at the same price pays more and costs less, and no
trade beats the marginal price. -/

namespace NomadAmm.Lib.ExactCurve

variable {K : Type*} [Field K] [LinearOrder K] [IsStrictOrderedRing K] {P s x y a o : K}

/-- What the curve pays for `a`. -/
def exactOut (P s a : K) : K := P * s * a / (s + a)

/-- What the curve asks for `o`. -/
def exactIn (P s o : K) : K := s * o / (P * s - o)

theorem le_exactOut_iff (hpos : 0 < s + a) : o ≤ exactOut P s a ↔ o * (s + a) ≤ P * s * a :=
  le_div_iff₀ hpos

theorem exactIn_le_iff (ho : o < P * s) : exactIn P s o ≤ a ↔ s * o ≤ a * (P * s - o) :=
  div_le_iff₀ (sub_pos.mpr ho)

/-- A deeper curve pays more. -/
theorem exactOut_mono (hP : 0 ≤ P) (ha : 0 ≤ a) (hxs : x ≤ s) (hpos : 0 < x + a) :
    exactOut P x a ≤ exactOut P s a := by
  have hpos' : 0 < s + a := by linarith
  have hside : x * (s + a) ≤ s * (x + a) := by nlinarith
  rw [exactOut, exactOut, div_le_div_iff₀ hpos hpos']
  calc P * x * a * (s + a) = P * a * (x * (s + a)) := by ring
    _ ≤ P * a * (s * (x + a)) := mul_le_mul_of_nonneg_left hside (mul_nonneg hP ha)
    _ = P * s * a * (x + a) := by ring

/-- A deeper curve costs less. -/
theorem exactIn_anti (hP : 0 ≤ P) (ho : 0 ≤ o) (hxs : x ≤ s) (hlt : o < P * x) :
    exactIn P s o ≤ exactIn P x o := by
  have hdeep : P * x ≤ P * s := mul_le_mul_of_nonneg_left hxs hP
  have hsq : o * o * x ≤ o * o * s := mul_le_mul_of_nonneg_left hxs (mul_nonneg ho ho)
  rw [exactIn, exactIn, div_le_div_iff₀ (by linarith) (by linarith)]
  calc s * o * (P * x - o) = P * x * s * o - o * o * s := by ring
    _ ≤ P * x * s * o - o * o * x := by linarith
    _ = x * o * (P * s - o) := by ring

/-- No output beats the marginal price. -/
theorem exactOut_le (hP : 0 ≤ P) (ha : 0 ≤ a) (hpos : 0 < s + a) : exactOut P s a ≤ P * a := by
  rw [exactOut, div_le_iff₀ hpos]
  have hsq : 0 ≤ P * (a * a) := mul_nonneg hP (mul_nonneg ha ha)
  linarith

/-- No output costs less than the marginal price asks for it. -/
theorem le_mul_exactIn (ho : 0 ≤ o) (hlt : o < P * s) : o ≤ P * exactIn P s o := by
  have hpos : 0 < P * s - o := by linarith
  rw [exactIn, ← mul_div_assoc, le_div_iff₀ hpos]
  have hsq : 0 ≤ o * o := mul_nonneg ho ho
  linarith

end NomadAmm.Lib.ExactCurve

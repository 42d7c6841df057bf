import NomadAmm.Curve.OracleCurve
import NomadAmm.Lib.Truncation

/-! The inventory imbalance is one rational function, whichever width computes it. The
narrow path may give up, and then the wide one answers; neither ever clamps. -/

namespace NomadAmm.Soundness.Imbalance

open Lib.Checked Lib.Truncation Exec

variable {r0 r1 num den : Nat} {i : Int}

/-- Token_0 valued in token_1 less token_1, over their sum, in basis points truncated
toward zero. -/
def imbalanceBps (r0 r1 num den : Nat) : Option Int :=
  let value0 := r0 * num / den
  if den = 0 ∨ value0 + r1 = 0 then none
  else
    let gap : Int := value0 - r1
    some (gap.sign * (gap.natAbs * 10000 / (value0 + r1) : Nat))

/-- The gap of two values as the code takes it: a difference and a sign. -/
theorem gap_eq (value0 r1 : Nat) :
    (if r1 ≤ value0 then (value0 - r1, 1) else (r1 - value0, -1) : Nat × Int) =
      (((value0 : Int) - r1).natAbs, if r1 ≤ value0 then 1 else -1) := by
  split
  · exact congrArg (Prod.mk · (1 : Int)) (by omega)
  · exact congrArg (Prod.mk · (-1 : Int)) (by omega)

/-- No magnitude exceeds the whole. -/
theorem magnitude_le (value0 r1 : Nat) :
    ((value0 : Int) - r1).natAbs * 10000 / (value0 + r1) ≤ 10000 :=
  Nat.div_le_of_le_mul (Nat.mul_le_mul_right _ (by omega))

/-- The code's sign is that of the gap; where they differ there is no gap. -/
theorem signed_magnitude (value0 r1 : Nat) :
    (if r1 ≤ value0 then 1 else -1 : Int) *
        (((value0 : Int) - r1).natAbs * 10000 / (value0 + r1) : Nat) =
      ((value0 : Int) - r1).sign *
        (((value0 : Int) - r1).natAbs * 10000 / (value0 + r1) : Nat) := by
  rcases lt_trichotomy value0 r1 with hlt | rfl | hgt
  · rw [if_neg (by omega), Int.sign_eq_neg_one_of_neg (by omega)]
  · simp
  · rw [if_pos hgt.le, Int.sign_eq_one_of_pos (by omega)]

/-- The clamp of either path, and the narrowing before it, change nothing. -/
theorem clamp_magnitude (value0 r1 : Nat) :
    min (((value0 : Int) - r1).natAbs * 10000 / (value0 + r1) % 2 ^ 64) 10000 =
      ((value0 : Int) - r1).natAbs * 10000 / (value0 + r1) := by
  have hle := magnitude_le value0 r1
  rw [Nat.mod_eq_of_lt (by omega), Nat.min_eq_left hle]

/-- An answer of the narrow path is the rational one. -/
theorem imbalanceBpsU128_spec (hden : den ≠ 0) (h : imbalanceBpsU128 r0 r1 num den = some i) :
    imbalanceBps r0 r1 num den = some i := by
  simp only [imbalanceBpsU128, bind, Option.bind_eq_some_iff, checkedMul_eq_some,
    checkedAdd_eq_some] at h
  obtain ⟨_, ⟨_, rfl⟩, _, ⟨_, rfl⟩, h⟩ := h
  split at h
  · cases h
  · next hsum =>
    simp only [gap_eq, Option.bind_eq_some_iff, checkedMul_eq_some, Option.some.injEq] at h
    obtain ⟨_, ⟨_, rfl⟩, rfl⟩ := h
    simp only [imbalanceBps, hden, hsum, or_self, if_false]
    rw [clamp_magnitude, signed_magnitude]

/-- What the wide path computes stays within its width. -/
structure Fits (r0 r1 num den : Nat) : Prop where
  product : r0 * num < 2 ^ 256
  sum : r0 * num / den + r1 < 2 ^ 256
  scaled : (((r0 * num / den : Nat) : Int) - r1).natAbs * 10000 < 2 ^ 256
  ratio : (((r0 * num / den : Nat) : Int) - r1).natAbs * 10000 / (r0 * num / den + r1) < 2 ^ 64

theorem fits (hr0 : r0 < 2 ^ 64) (hr1 : r1 < 2 ^ 64) (hnum : num < 2 ^ 128) (den : Nat) :
    Fits r0 r1 num den := by
  have hproduct : r0 * num < 2 ^ 192 := by
    calc r0 * num < 2 ^ 64 * 2 ^ 128 := Nat.mul_lt_mul'' hr0 hnum
      _ = 2 ^ 192 := by norm_num
  have hvalue := (Nat.div_le_self (r0 * num) den).trans_lt hproduct
  have hratio := magnitude_le (r0 * num / den) r1
  refine ⟨by omega, by omega, ?_, by omega⟩
  generalize r0 * num / den = value0 at hvalue
  omega

/-- The wide path is total: it answers, or there is nothing to divide by. -/
theorem imbalanceBpsU256_eq (h : Fits r0 r1 num den) :
    imbalanceBpsU256 r0 r1 num den = orNone (imbalanceBps r0 r1 num den) := by
  have hproduct : checkedMul 256 r0 num = some (r0 * num) := checkedMul_eq_some.mpr ⟨h.product, rfl⟩
  have hsum : checkedAdd 256 (r0 * num / den) r1 = some (r0 * num / den + r1) :=
    checkedAdd_eq_some.mpr ⟨h.sum, rfl⟩
  have hscaled := checkedMul_eq_some.mpr ⟨h.scaled, rfl⟩
  have hratio := tryFrom_eq_some.mpr ⟨h.ratio, rfl⟩
  by_cases hden : den = 0
  · simp [imbalanceBpsU256, imbalanceBps, hproduct, hden, checkedDiv, orNone, bind, Except.bind]
  · by_cases hzero : r0 * num / den + r1 = 0
    · simp [imbalanceBpsU256, imbalanceBps, hproduct, hden, checkedDiv, hsum, hzero, orNone, bind,
        Except.bind, require]
    · have hle := magnitude_le (r0 * num / den) r1
      simp only [imbalanceBpsU256, imbalanceBps, hproduct, checkedDiv, hden, hsum, hzero, gap_eq,
        hscaled, hratio, orNone, unwrap, require, bind, Except.bind, pure, Except.pure, if_false,
        or_self, ne_eq, not_false_eq_true, if_true, Nat.min_eq_left hle, signed_magnitude]

theorem computeInventoryImbalanceBps_eq_orNone (h : Fits r0 r1 num den) :
    computeInventoryImbalanceBps r0 r1 num den = orNone (imbalanceBps r0 r1 num den) := by
  unfold computeInventoryImbalanceBps
  by_cases hden : den = 0
  · simp [hden, imbalanceBps, orNone]
  · rw [if_neg hden]
    cases hnarrow : imbalanceBpsU128 r0 r1 num den with
    | none => exact imbalanceBpsU256_eq h
    | some i => rw [imbalanceBpsU128_spec hden hnarrow, orNone]

theorem imbalanceBps_eq_none :
    imbalanceBps r0 r1 num den = none ↔ den = 0 ∨ r0 * num / den + r1 = 0 := by
  unfold imbalanceBps
  by_cases hempty : den = 0 ∨ r0 * num / den + r1 = 0
  · simp only [hempty, if_true]
  · simp only [hempty, if_false, reduceCtorEq]

/-- Sign and magnitude together are one truncating division. -/
theorem imbalanceBps_eq_some (h : imbalanceBps r0 r1 num den = some i) :
    den ≠ 0 ∧ 0 < r0 * num / den + r1 ∧
      i = (((r0 * num / den : Nat) - r1 : Int) * 10000).tdiv (r0 * num / den + r1 : Nat) := by
  unfold imbalanceBps at h
  generalize r0 * num / den = value0 at h ⊢
  dsimp only at h
  split at h
  · cases h
  · next hsome =>
    cases h
    refine ⟨by tauto, by omega, ?_⟩
    have hsign : (10000 : Int).sign = 1 := rfl
    rw [tdiv_natCast, Int.sign_mul, Int.natAbs_mul, hsign, Int.mul_one]
    rfl

theorem imbalanceBps_range (h : imbalanceBps r0 r1 num den = some i) :
    -10000 ≤ i ∧ i ≤ 10000 := by
  obtain ⟨_, _, rfl⟩ := imbalanceBps_eq_some h
  have hmag := natAbs_tdiv_le (k := 10000) (n := r0 * num / den + r1)
    (a := ((r0 * num / den : Nat) - r1 : Int) * 10000) (by
      generalize r0 * num / den = value0
      omega)
  omega

/-- **Both widths compute the rational imbalance.** No operation of the wide path
overflows, neither clamp changes a value, and no answer is the whole story of an empty
pool or a degenerate price. -/
theorem computeInventoryImbalanceBps_eq (r0 r1 num den : Nat) (hr0 : r0 < 2 ^ 64)
    (hr1 : r1 < 2 ^ 64) (hnum : num < 2 ^ 128) :
    computeInventoryImbalanceBps r0 r1 num den = orNone (imbalanceBps r0 r1 num den) ∧
      (computeInventoryImbalanceBps r0 r1 num den = .error .none ↔
        den = 0 ∨ r0 * num / den + r1 = 0) ∧
      (∀ i, computeInventoryImbalanceBps r0 r1 num den = .ok i → -10000 ≤ i ∧ i ≤ 10000) ∧
      (den ≠ 0 → ∀ i, imbalanceBpsU128 r0 r1 num den = some i →
        imbalanceBpsU256 r0 r1 num den = .ok i) ∧
      imbalanceBpsU256 r0 r1 num den = orNone (imbalanceBps r0 r1 num den) ∧
      Fits r0 r1 num den ∧
      min (((r0 * num / den : Nat) - r1 : Int).natAbs * 10000 / (r0 * num / den + r1) % 2 ^ 64)
          10000 =
        ((r0 * num / den : Nat) - r1 : Int).natAbs * 10000 / (r0 * num / den + r1) := by
  have hfits := fits hr0 hr1 hnum den
  have heq := computeInventoryImbalanceBps_eq_orNone hfits
  refine ⟨heq, ?_, ?_, ?_, imbalanceBpsU256_eq hfits, hfits, clamp_magnitude _ _⟩
  · rw [heq, ← imbalanceBps_eq_none]
    cases imbalanceBps r0 r1 num den <;> simp [orNone]
  · intro i h
    rw [heq, orNone_eq_ok] at h
    exact imbalanceBps_range h
  · intro hden i h
    rw [imbalanceBpsU256_eq hfits, imbalanceBpsU128_spec hden h]
    rfl

/-- A price wide enough to overflow the narrow product: the wide path answers. -/
theorem computeInventoryImbalanceBps_eq_wide :
    imbalanceBpsU128 (2 ^ 64 - 1) 1 (2 ^ 128 - 1) 1 = none ∧
      computeInventoryImbalanceBps (2 ^ 64 - 1) 1 (2 ^ 128 - 1) 1 =
        orNone (imbalanceBps (2 ^ 64 - 1) 1 (2 ^ 128 - 1) 1) :=
  ⟨by decide +kernel, (computeInventoryImbalanceBps_eq (2 ^ 64 - 1) 1 (2 ^ 128 - 1) 1 (by norm_num)
    (by norm_num) (by norm_num)).1⟩

end NomadAmm.Soundness.Imbalance

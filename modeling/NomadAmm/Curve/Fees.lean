import NomadAmm.Error
import NomadAmm.Lib.Rounding

/-! `curve/fees.rs`: every fee is a rate over one denominator, rounded up when it
is charged and down when it is shared out. -/

namespace NomadAmm

open Lib.Checked Lib.Rounding Exec

def feeRateDenominatorValue : Nat := 1000000

/-- The private `ceil_div` of `fees.rs`. -/
def feeCeilDiv (tokenAmount feeNumerator feeDenominator : Nat) : Option Nat :=
  if feeDenominator = 0 then none
  else do
    let product ← checkedMul 128 tokenAmount feeNumerator
    let raised ← checkedAdd 128 product feeDenominator
    let lowered ← checkedSub raised 1
    checkedDiv lowered feeDenominator

def floorDiv (tokenAmount feeNumerator feeDenominator : Nat) : Option Nat :=
  if feeDenominator = 0 then none
  else do
    let product ← checkedMul 128 tokenAmount feeNumerator
    checkedDiv product feeDenominator

namespace Fees

def tradingFee (amount tradeFeeRate : Nat) : Option Nat :=
  feeCeilDiv amount tradeFeeRate feeRateDenominatorValue

def protocolFee (amount protocolFeeRate : Nat) : Option Nat :=
  floorDiv amount protocolFeeRate feeRateDenominatorValue

def fundFee (amount fundFeeRate : Nat) : Option Nat :=
  floorDiv amount fundFeeRate feeRateDenominatorValue

def creatorFee (amount creatorFeeRate : Nat) : Option Nat :=
  feeCeilDiv amount creatorFeeRate feeRateDenominatorValue

/-- The sum of the two rates is a plain `u64` addition, so it may panic. -/
def splitCreatorFee (totalFee tradeFeeRate creatorFeeRate : Nat) : Exec Nat := do
  let rates ← unwrap (checkedAdd 64 tradeFeeRate creatorFeeRate)
  orNone (floorDiv totalFee creatorFeeRate rates)

def calculatePreFeeAmount (postFeeAmount tradeFeeRate : Nat) : Option Nat :=
  if tradeFeeRate = 0 then some postFeeAmount
  else do
    let numerator ← checkedMul 128 postFeeAmount feeRateDenominatorValue
    let denominator ← checkedSub feeRateDenominatorValue tradeFeeRate
    let raised ← checkedAdd 128 numerator denominator
    let lowered ← checkedSub raised 1
    checkedDiv lowered denominator

end Fees

/-! ## What the fee functions compute -/

@[simp] theorem feeRateDenominatorValue_pos : 0 < feeRateDenominatorValue := by decide

theorem feeCeilDiv_eq_some {a n d f : Nat} :
    feeCeilDiv a n d = some f ↔ d ≠ 0 ∧ a * n + d < 2 ^ 128 ∧ ceilDiv (a * n) d = f := by
  by_cases hd : d = 0
  · simp [feeCeilDiv, hd]
  · simp only [feeCeilDiv, hd, if_false, bind, Option.bind_eq_some_iff, checkedMul_eq_some,
      checkedAdd_eq_some, checkedSub_eq_some, checkedDiv_eq_some, ceilDiv]
    constructor
    · intro h
      obtain ⟨_, ⟨_, rfl⟩, _, ⟨h, rfl⟩, _, ⟨_, rfl⟩, _, hf⟩ := h
      exact ⟨hd, h, hf⟩
    · intro h
      obtain ⟨_, h, hf⟩ := h
      exact ⟨_, ⟨by omega, rfl⟩, _, ⟨h, rfl⟩, _, ⟨by omega, rfl⟩, hd, hf⟩

theorem floorDiv_eq_some {a n d f : Nat} :
    floorDiv a n d = some f ↔ d ≠ 0 ∧ a * n < 2 ^ 128 ∧ a * n / d = f := by
  by_cases hd : d = 0
  · simp [floorDiv, hd]
  · simp only [floorDiv, hd, if_false, bind, Option.bind_eq_some_iff, checkedMul_eq_some,
      checkedDiv_eq_some]
    constructor
    · intro h
      obtain ⟨_, ⟨h, rfl⟩, _, hf⟩ := h
      exact ⟨hd, h, hf⟩
    · intro h
      obtain ⟨_, h, hf⟩ := h
      exact ⟨_, ⟨h, rfl⟩, hd, hf⟩

namespace Fees

variable {a r p q f t : Nat}

theorem tradingFee_eq_some : tradingFee a r = some f ↔
    a * r + feeRateDenominatorValue < 2 ^ 128 ∧
      ceilDiv (a * r) feeRateDenominatorValue = f := by
  rw [tradingFee, feeCeilDiv_eq_some]
  simp [feeRateDenominatorValue_pos.ne']

theorem creatorFee_eq_some : creatorFee a r = some f ↔
    a * r + feeRateDenominatorValue < 2 ^ 128 ∧
      ceilDiv (a * r) feeRateDenominatorValue = f := tradingFee_eq_some

theorem protocolFee_eq_some : protocolFee a r = some f ↔
    a * r < 2 ^ 128 ∧ a * r / feeRateDenominatorValue = f := by
  rw [protocolFee, floorDiv_eq_some]
  simp [feeRateDenominatorValue_pos.ne']

theorem fundFee_eq_some : fundFee a r = some f ↔
    a * r < 2 ^ 128 ∧ a * r / feeRateDenominatorValue = f := protocolFee_eq_some

/-- The two shares of a trade fee never exceed it. -/
theorem floor_shares_le (hrate : p + q ≤ feeRateDenominatorValue) :
    t * p / feeRateDenominatorValue + t * q / feeRateDenominatorValue ≤ t := by
  calc t * p / feeRateDenominatorValue + t * q / feeRateDenominatorValue
      ≤ (t * p + t * q) / feeRateDenominatorValue := Nat.div_add_div_le_add_div
    _ = t * (p + q) / feeRateDenominatorValue := by rw [Nat.mul_add]
    _ ≤ t * feeRateDenominatorValue / feeRateDenominatorValue :=
        Nat.div_le_div_right (Nat.mul_le_mul_left _ hrate)
    _ = t := Nat.mul_div_cancel _ feeRateDenominatorValue_pos

theorem splitCreatorFee_eq_ok : splitCreatorFee t p q = .ok f ↔
    p + q < 2 ^ 64 ∧ p + q ≠ 0 ∧ t * q < 2 ^ 128 ∧ t * q / (p + q) = f := by
  simp only [splitCreatorFee, bind_eq_ok, unwrap_eq_ok, orNone_eq_ok, checkedAdd_eq_some,
    floorDiv_eq_some]
  constructor
  · intro h
    obtain ⟨_, ⟨h, rfl⟩, h1, h2, h3⟩ := h
    exact ⟨h, h1, h2, h3⟩
  · intro h
    obtain ⟨h, h1, h2, h3⟩ := h
    exact ⟨_, ⟨h, rfl⟩, h1, h2, h3⟩

theorem calculatePreFeeAmount_spec (h : calculatePreFeeAmount a r = some f) :
    r < feeRateDenominatorValue ∧ f = grossUp feeRateDenominatorValue r a := by
  unfold calculatePreFeeAmount at h
  split at h
  · next hr =>
    refine ⟨by rw [hr]; exact feeRateDenominatorValue_pos, ?_⟩
    rw [← Option.some.inj h, hr, grossUp_zero feeRateDenominatorValue_pos]
  · simp only [bind, Option.bind_eq_some_iff, checkedMul_eq_some, checkedAdd_eq_some,
      checkedSub_eq_some, checkedDiv_eq_some] at h
    obtain ⟨_, ⟨_, rfl⟩, _, ⟨_, rfl⟩, _, ⟨_, rfl⟩, _, ⟨_, rfl⟩, hd, rfl⟩ := h
    exact ⟨by omega, rfl⟩

/-- Below the denominator the gross amount is found unless it overflows. -/
theorem calculatePreFeeAmount_of_fits (hr : r < feeRateDenominatorValue)
    (hfit : a * feeRateDenominatorValue + feeRateDenominatorValue < 2 ^ 128) :
    calculatePreFeeAmount a r = some (grossUp feeRateDenominatorValue r a) := by
  unfold calculatePreFeeAmount
  split
  · next h => rw [h, grossUp_zero feeRateDenominatorValue_pos]
  · simp only [bind, Option.bind_eq_some_iff, checkedMul_eq_some, checkedAdd_eq_some,
      checkedSub_eq_some, checkedDiv_eq_some]
    exact ⟨_, ⟨by omega, rfl⟩, _, ⟨by omega, rfl⟩, _, ⟨by omega, rfl⟩, _, ⟨by omega, rfl⟩,
      by omega, rfl⟩

end Fees

end NomadAmm

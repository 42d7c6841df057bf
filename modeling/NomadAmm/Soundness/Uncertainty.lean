import NomadAmm.Bot.Keeper
import NomadAmm.Program

/-! What more uncertainty does to a pushed quote. The spread follows the confidence through
saturating arithmetic and is monotone. The fee narrows the ratio to 64 bits before it
saturates; a ratio that does not fit wraps around, and the fee can fall back to the base
rate where it should be at its cap. -/

namespace NomadAmm.Soundness.Uncertainty

open Lib.Checked Exec Client NomadAmm.Bot

variable {base fee fee' : Nat} {price bid ask bid' ask' : Int} {cache : PoolCache}
  {quote quote' : LatestQuote}

/-- The confidence of a quote, none where it is absent. -/
def confidence (quote : LatestQuote) : Int := quote.confidenceMantissa.getD 0

/-- The confidence in basis points of the price, unbounded. -/
def ratioBps (confidence price : Int) : Nat := confidence.toNat * 10000 / price.toNat

/-- The fee rate in unbounded arithmetic. -/
def exactFeeRate (base : Nat) (confidence price : Int) : Nat :=
  min (base + 100 * ratioBps confidence price) (feeRateDenominatorValue - 1)

/-- The ratio fits 64 bits, or what is left of it still reaches the cap. -/
def SurchargeFits (base : Nat) (confidence price : Int) : Prop :=
  ratioBps confidence price < 2 ^ 64 ∨
    feeRateDenominatorValue - 1 ≤ base + 100 * (ratioBps confidence price % 2 ^ 64)

/-! ## The fee of a confidence -/

theorem confidenceBps_eq (c : Option Int) (price : Int) :
    confidenceBps c price = ratioBps (c.getD 0) price % 2 ^ 64 := by
  have hzero : ∀ c : Int, ¬ 0 < c → ratioBps c price % 2 ^ 64 = 0 := by
    intro c hc
    rw [ratioBps, Int.toNat_of_nonpos (by omega), Nat.zero_mul, Nat.zero_div, Nat.zero_mod]
  cases c with
  | none => exact (hzero 0 (by omega)).symm
  | some c =>
    by_cases hc : 0 < c
    · simp only [confidenceBps, hc, if_true, Option.getD_some, ratioBps]
    · simp only [confidenceBps, hc, if_false, Option.getD_some]
      exact (hzero c hc).symm

/-- What is computed is the exact rate of the low 64 bits of the ratio. -/
theorem computeDynamicFeeRate_eq (hprice : 0 < price) (c : Option Int) :
    computeDynamicFeeRate base c price =
      min (base + 100 * (ratioBps (c.getD 0) price % 2 ^ 64)) (feeRateDenominatorValue - 1) := by
  have hD : feeRateDenominatorValue = 1000000 := rfl
  rw [computeDynamicFeeRate, if_neg (by omega), confidenceBps_eq]
  generalize ratioBps (c.getD 0) price % 2 ^ 64 = bps
  dsimp only [saturatingAdd, saturatingMul, feeRateUnitsPerBps]
  omega

/-- **When the fee is the exact one.** -/
theorem computeDynamicFeeRate_exact_iff (base : Nat) (hprice : 0 < price) (c : Option Int) :
    computeDynamicFeeRate base c price = exactFeeRate base (c.getD 0) price ↔
      SurchargeFits base (c.getD 0) price := by
  have hD : feeRateDenominatorValue = 1000000 := rfl
  rw [computeDynamicFeeRate_eq hprice, exactFeeRate, SurchargeFits]
  generalize ratioBps (c.getD 0) price = bps
  omega

theorem exactFeeRate_mono {c c' : Int} (h : c ≤ c') (base : Nat) (price : Int) :
    exactFeeRate base c price ≤ exactFeeRate base c' price := by
  have hratio : ratioBps c price ≤ ratioBps c' price :=
    Nat.div_le_div_right (Nat.mul_le_mul_right _ (by omega))
  unfold exactFeeRate
  omega

/-! ## Two quotes that differ in their confidence -/

/-- What more uncertainty should do: a wider quote at a higher fee, each fee the exact one. -/
structure Widened (cache : PoolCache) (quote quote' : LatestQuote)
    (fields fields' : Int × Int × Nat) : Prop where
  bid : fields'.1 ≤ fields.1
  ask : fields.2.1 ≤ fields'.2.1
  fee : fields.2.2 ≤ fields'.2.2
  exactFee : fields.2.2 =
    exactFeeRate cache.baseTradeFeeRate (confidence quote) quote.priceMantissa
  exactFee' : fields'.2.2 =
    exactFeeRate cache.baseTradeFeeRate (confidence quote') quote'.priceMantissa

/-- **When quote and fee widen with uncertainty.** Bid and ask always do. The fees do, and
are exact, where both ratios fit 64 bits or wrap around to one that is capped all the same. -/
theorem widened_iff
    (hsame : quote' = { quote with confidenceMantissa := quote'.confidenceMantissa })
    (hle : confidence quote ≤ confidence quote')
    (h : computeUpdateFields quote cache = .ok (bid, ask, fee))
    (h' : computeUpdateFields quote' cache = .ok (bid', ask', fee')) :
    Widened cache quote quote' (bid, ask, fee) (bid', ask', fee') ↔
      SurchargeFits cache.baseTradeFeeRate (confidence quote) quote.priceMantissa ∧
        SurchargeFits cache.baseTradeFeeRate (confidence quote') quote'.priceMantissa := by
  obtain ⟨hquote, rfl⟩ := computeUpdateFields_spec h
  obtain ⟨hquote', rfl⟩ := computeUpdateFields_spec h'
  obtain ⟨hprice, -⟩ := computeEffective_spec hquote
  have hprice' : quote'.priceMantissa = quote.priceMantissa := by rw [hsame]
  have hbestBid : quote'.bestBidMantissa = quote.bestBidMantissa := by rw [hsame]
  have hbestAsk : quote'.bestAskMantissa = quote.bestAskMantissa := by rw [hsame]
  rw [hprice', hbestBid, hbestAsk] at hquote'
  have hexact := computeDynamicFeeRate_exact_iff cache.baseTradeFeeRate hprice
    quote.confidenceMantissa
  have hexact' := computeDynamicFeeRate_exact_iff cache.baseTradeFeeRate hprice
    quote'.confidenceMantissa
  constructor
  · intro hwide
    have hfee' := hwide.exactFee'
    rw [hprice'] at hfee' ⊢
    exact ⟨hexact.mp hwide.exactFee, hexact'.mp hfee'⟩
  · intro hfits
    rw [hprice'] at hfits
    have hfee := hexact.mpr hfits.1
    have hfee' := hexact'.mpr hfits.2
    obtain ⟨hbid, hask⟩ := computeEffective_widens (minSpread_mono hprice hle _) hquote hquote'
    refine ⟨hbid, hask, ?_, hfee, ?_⟩
    · dsimp only
      rw [hprice', hfee, hfee']
      exact exactFeeRate_mono hle _ _
    · dsimp only
      rw [hprice', hfee']
      rfl

/-- A quote of two units with a confidence of `c`. -/
def tinyQuote (c : Int) : LatestQuote where
  priceMantissa := 2
  confidenceMantissa := some c
  bestBidMantissa := none
  bestAskMantissa := none
  exponent := -8

/-- The ratio of the second confidence is a multiple of 2^64: the fee falls from its cap to
the base rate. -/
theorem widened_fails :
    loadBlocking (some examplePool.poolState) (some examplePool.ammConfig) 9 1 = .ok ⟨5, 2500⟩ ∧
      computeUpdateFields (tinyQuote 1000) ⟨5, 2500⟩ = .ok (1, 2, 999999) ∧
      computeUpdateFields (tinyQuote (2 ^ 61)) ⟨5, 2500⟩ = .ok (1, 2, 2500) ∧
      ¬ Widened ⟨5, 2500⟩ (tinyQuote 1000) (tinyQuote (2 ^ 61)) (1, 2, 999999) (1, 2, 2500) := by
  refine ⟨by decide +kernel, by decide +kernel, by decide +kernel, ?_⟩
  intro hwide
  have hfee := hwide.fee
  norm_num at hfee

theorem widened_iff_tiny :
    Widened ⟨5, 2500⟩ (tinyQuote 0) (tinyQuote 1000) (1, 2, 2500) (1, 2, 999999) :=
  (widened_iff rfl (by decide) (show computeUpdateFields (tinyQuote 0) ⟨5, 2500⟩ =
    .ok (1, 2, 2500) by decide +kernel) (show computeUpdateFields (tinyQuote 1000) ⟨5, 2500⟩ =
    .ok (1, 2, 999999) by decide +kernel)).mpr ⟨.inl (by decide +kernel), .inl (by decide +kernel)⟩

end NomadAmm.Soundness.Uncertainty

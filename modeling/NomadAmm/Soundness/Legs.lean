import NomadAmm.Soundness.ShareValue

/-! One exact-in swap as the leg of a longer trade, between mints that charge nothing for
a transfer: what it puts on the curve, at which price, and what the trader gets. -/

namespace NomadAmm.Soundness.Legs

open Lib.Rounding Lib.Checked Exec Instructions
open Soundness.Settlement Soundness.Ledger Soundness.Solvency

variable {m m' : Market} {env : Env} {direction : TradeDirection} {amount minimum user : Nat}
  {toVault onInput : Bool} {receipt : SwapReceipt}

/-- No fee is withheld from a transfer. -/
def FeeFree (mint : Mint) : Prop := mint.owner = .token ∨ mint.transferFeeConfig = none

theorem getTransferFee_of_feeFree {mint : Mint} (h : FeeFree mint) (epoch a : Nat) :
    getTransferFee mint epoch a = .ok 0 := by
  unfold getTransferFee
  rcases h with howner | hconfig
  · rw [howner]
    rfl
  · rw [hconfig]
    cases mint.owner <;> rfl

/-- The rates a swap of `m` is charged on its input and on its output. -/
def inputRate (m : Market) (onInput : Bool) : Nat :=
  inputFeeRate onInput (m.poolState.effectiveTradeFeeRate m.ammConfig.tradeFeeRate)
    (m.poolState.adjustCreatorFeeRate m.ammConfig.creatorFeeRate)

def outputRate (m : Market) (onInput : Bool) : Nat :=
  outputFeeRate onInput (m.poolState.adjustCreatorFeeRate m.ammConfig.creatorFeeRate)

/-- `less` of `amount` reaches the curve, which takes `swapped` off at no more than
`n / d`, and the trader is paid what the output rate leaves of that. -/
structure Leg (m : Market) (direction : TradeDirection) (onInput : Bool) (amount n d : Nat)
    (R : SwapResult) (less swapped : Nat) : Prop where
  rate : inputRate m onInput ≤ feeRateDenominatorValue
  charged : less = lessFee feeRateDenominatorValue (inputRate m onInput) amount
  curve : R.newInputVaultAmount = m.net direction.input + less
  spot : swapped * d ≤ less * n
  output : R.outputAmount * feeRateDenominatorValue ≤
    swapped * (feeRateDenominatorValue - outputRate m onInput)

/-- What a swap reads of the rates does not change between slices. -/
theorem rates_congr (hpool : quoted m'.poolState = quoted m.poolState)
    (hconfig : m'.ammConfig = m.ammConfig) (onInput : Bool) :
    inputRate m' onInput = inputRate m onInput ∧ outputRate m' onInput = outputRate m onInput := by
  have htrade := congrArg
    (fun s => s.effectiveTradeFeeRate m.ammConfig.tradeFeeRate) hpool
  have hcreator := congrArg (fun s => s.adjustCreatorFeeRate m.ammConfig.creatorFeeRate) hpool
  change m'.poolState.effectiveTradeFeeRate _ = m.poolState.effectiveTradeFeeRate _ at htrade
  change m'.poolState.adjustCreatorFeeRate _ = m.poolState.adjustCreatorFeeRate _ at hcreator
  unfold inputRate outputRate
  rw [hconfig, htrade, hcreator]
  exact ⟨rfl, rfl⟩

/-- A charge that its input covers is at a rate of at most 100 %. -/
theorem rate_le_of_fee_le {rate : Nat} (hpos : 0 < amount)
    (h : ceilDiv (amount * rate) feeRateDenominatorValue ≤ amount) :
    rate ≤ feeRateDenominatorValue := by
  rw [ceilDiv_le_iff feeRateDenominatorValue_pos] at h
  exact Nat.le_of_mul_le_mul_left h hpos

/-- **A successful exact-in swap is a leg** at the price its direction is quoted. -/
theorem swapBaseInput_leg (hm : Sound m) (hfree : FeeFree (env.mint direction.input))
    (hon : m.poolState.isCreatorFeeOnInput direction = .ok onInput)
    (h : Instructions.swapBaseInput m env direction.input direction.output amount minimum user
      toVault = .ok (m', receipt)) :
    ∃ cached p less swapped, m.poolState.cachedOracleQuote = some cached ∧
      priceSwap m direction.input direction.output cached = .ok p ∧
      Leg m direction onInput amount p.spotNum p.spotDen receipt.result less swapped ∧
      Sound m' ∧ quoted m'.poolState = quoted m.poolState ∧ m'.ammConfig = m.ammConfig := by
  simp only [Instructions.swapBaseInput, bind_eq_ok] at h
  obtain ⟨q, hquote, hsettle⟩ := h
  obtain ⟨less', swapped', hq, hcurve, hamount⟩ := quoteBaseInput_spec hquote
  obtain ⟨hside, -, heffect, hresult⟩ := settleSwap_spec hm.vault_lt hq hsettle
  obtain ⟨cached, hcached, hprice⟩ := hq.cached
  obtain ⟨-, -, -, -, ht, hc⟩ := priceSwap_spec hprice
  obtain ⟨-, -, hmode⟩ := priceSwap_sides hprice
  obtain rfl := TradeDirection.eq_of_input_eq hside
  obtain rfl := Except.ok.inj (hmode.symm.trans hon)
  obtain ⟨-, hreserve, -⟩ := priceSwap_reserves hprice
  obtain ⟨less, swapped, output, hless, hfee, hk, hout, hR, -⟩ :=
    CurveCalculator.swapBaseInput_spec (noneTo_eq_ok.mp hcurve)
  have hinput : q.result.inputAmount = amount := by
    simp only [quoteBaseInput, getTransferFee_of_feeFree hfree, bind_eq_ok, require_eq_ok,
      unwrap_eq_ok, tryFrom_eq_some, Except.ok.injEq, pure_eq_ok] at hquote
    obtain ⟨_, _, _, rfl, _, _, _, _, _, _, _, ⟨_, rfl⟩, _, heq, _, _, _, _, _, _, _, _, _, _,
      rfl⟩ := hquote
    exact heq
  have hpos : 0 < amount := by
    rw [← hamount]
    exact Nat.pos_of_ne_zero hq.payment
  rw [hinput, ht, hc] at hless hfee
  have hrate : inputRate m q.pricing.params.isCreatorFeeOnInput ≤ feeRateDenominatorValue :=
    rate_le_of_fee_le hpos hfee
  refine ⟨cached, q.pricing, less, swapped, hcached, hprice, ⟨hrate, ?_, ?_, ?_, ?_⟩,
    (swap_sound hm hq heffect).1, heffect.quoted, heffect.config⟩
  · rw [hless]
    exact sub_fee_eq_lessFee feeRateDenominatorValue_pos hrate amount
  · rw [hresult, hR, ← hreserve]
    rfl
  · exact OracleCurve.swapBaseInputWithoutFees_spot hk
  · rw [hresult, hR]
    change output * feeRateDenominatorValue ≤ _
    rw [hout, hc]
    exact sub_ceilDiv_mul_le feeRateDenominatorValue_pos _ swapped

end NomadAmm.Soundness.Legs

import NomadAmm.Client.Commands
import NomadAmm.Instructions.Swap

/-! `client/src/main.rs`: the `SwapBaseIn` and `SwapBaseOut` commands, from the accounts
they fetch together to the bounds they send. -/

namespace NomadAmm.Client

open Lib.Checked Exec

/-- The cached quote of a direction as raw output per input; previews leave out the skew. -/
def previewSpotRate (s : PoolState) (direction : TradeDirection) : Option (Nat × Nat) := do
  let (bid, ask, exponent) ← s.cachedOracleQuote
  let mantissa := match direction with
    | .zeroForOne => bid
    | .oneForZero => ask
  let (num, den) ← pythPriceToRawFraction mantissa exponent s.mint0Decimals s.mint1Decimals
  match direction with
  | .zeroForOne => some (num, den)
  | .oneForZero => some (den, num)

/-- Any account that is not of the first token is taken for one of the second. `none` is
another mint. -/
def commandDirection (userInputMint : Option TokenSide) : TradeDirection :=
  if userInputMint = some .token0 then .zeroForOne else .oneForZero

/-- What a command computed, the user's side of it, and the bound it sends. -/
structure SwapCommand where
  result : SwapResult
  userAmount : Nat
  bound : Nat
  deriving DecidableEq, Repr

/-- The curve as both commands run it; a failure is unwrapped. -/
def previewCurve (curve : Nat → Nat → Nat → Nat → Nat → Nat → Nat → Bool → Nat → Nat →
      Exec SwapResult) (m : Market) (direction : TradeDirection) (total : PerToken Nat)
    (amount : Nat) : Exec SwapResult := do
  let (spotNum, spotDen) ← unwrap (previewSpotRate m.poolState direction)
  let isCreatorFeeOnInput ← unwrapOk (m.poolState.isCreatorFeeOnInput direction)
  unwrapOk (noneTo .zeroTradingTokens (curve amount (total.get direction.input)
    (total.get direction.output) (m.poolState.effectiveTradeFeeRate m.ammConfig.tradeFeeRate)
    (m.poolState.adjustCreatorFeeRate m.ammConfig.creatorFeeRate) m.ammConfig.protocolFeeRate
    m.ammConfig.fundFeeRate isCreatorFeeOnInput spotNum spotDen))

/-- `userAmount` is what is received. -/
def swapBaseIn (amountWithSlippage : Nat → Bool → Nat) (m : Market) (env : Env)
    (userInputMint : Option TokenSide) (userInputAmount : Nat) : Exec SwapCommand := do
  let epoch := env.clock.epoch
  let total ← unwrapOk (m.poolState.vaultAmountWithoutFee m.vault.token0 m.vault.token1)
  let direction := commandDirection userInputMint
  let transferFee ← getTransferFee (unpackMint (env.mint direction.input)) epoch userInputAmount
  let actualAmountIn := userInputAmount - transferFee
  let result ← previewCurve CurveCalculator.swapBaseInput m direction total actualAmountIn
  let amountOut ← unwrap (tryFrom 64 result.outputAmount)
  let transferFee ← getTransferFee (unpackMint (env.mint direction.output)) epoch amountOut
  let amountReceived ← unwrap (checkedSub amountOut transferFee)
  pure ⟨result, amountReceived, amountWithSlippage amountReceived false⟩

/-- `userAmount` is what is paid. -/
def swapBaseOut (amountWithSlippage : Nat → Bool → Nat) (m : Market) (env : Env)
    (userInputMint : Option TokenSide) (amountOutLessFee : Nat) : Exec SwapCommand := do
  let epoch := env.clock.epoch
  let total ← unwrapOk (m.poolState.vaultAmountWithoutFee m.vault.token0 m.vault.token1)
  let direction := commandDirection userInputMint
  let outTransferFee ←
    getTransferInverseFee (unpackMint (env.mint direction.output)) epoch amountOutLessFee
  let actualAmountOut ← unwrap (checkedAdd 64 amountOutLessFee outTransferFee)
  let result ← previewCurve CurveCalculator.swapBaseOutput m direction total actualAmountOut
  let sourceAmountSwapped ← unwrap (tryFrom 64 result.inputAmount)
  let amountInTransferFee ←
    getTransferInverseFee (unpackMint (env.mint direction.input)) epoch sourceAmountSwapped
  let inputTransferAmount ← unwrap (checkedAdd 64 sourceAmountSwapped amountInTransferFee)
  pure ⟨result, inputTransferAmount, amountWithSlippage inputTransferAmount true⟩

end NomadAmm.Client

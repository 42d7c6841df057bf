import NomadAmm.States.Market

/-! `instructions/swap_base_input.rs` and `swap_base_output.rs`. Both handlers check
the pool, derive a price from the cached quote, run the curve and settle; what they
write out twice is written once here. A handler is a quote, which changes nothing,
and a settlement. -/

namespace NomadAmm

open Lib.Checked Exec

/-- A pair in (token_0, token_1) or (numerator, denominator) order, turned to (input,
output) order or back. -/
def TradeDirection.orient {α : Type} : TradeDirection → α × α → α × α
  | .zeroForOne, p => p
  | .oneForZero, p => (p.2, p.1)

/-- The cached quote after inventory skew. -/
structure SkewedQuote where
  inventoryImbalanceBps : Int
  inventorySkewBps : Int
  bidMantissa : Int
  askMantissa : Int
  deriving DecidableEq, Repr

/-- A trader selling token_0 is paid the bid, one buying it pays the ask. -/
def SkewedQuote.effectiveMantissa (q : SkewedQuote) : TradeDirection → Int
  | .zeroForOne => q.bidMantissa
  | .oneForZero => q.askMantissa

/-- Everything a handler derives from the pool before it runs the curve. -/
structure Pricing where
  params : SwapParams
  exponent : Int
  quote : SkewedQuote
  spotNum : Nat
  spotDen : Nat
  effectiveTradeFeeRate : Nat
  creatorFeeRate : Nat
  deriving DecidableEq, Repr

/-- A priced swap, before anything is written. -/
structure SwapQuote where
  pricing : Pricing
  result : SwapResult
  baseInput : Bool
  inputTransferAmount : Nat
  inputTransferFee : Nat
  outputTransferAmount : Nat
  outputTransferFee : Nat
  deriving DecidableEq, Repr

/-- What a swap returns: the curve's result and the event that reports it. -/
structure SwapReceipt where
  result : SwapResult
  event : SwapEvent
  deriving DecidableEq, Repr

namespace PoolState

/-- The mid price values the inventory; an imbalance that cannot be computed counts
as none. -/
def skewedQuote (s : PoolState) (params : SwapParams) (cachedBid cachedAsk cachedExponent : Int) :
    Exec SkewedQuote :=
  if s.inventorySkewEnabled ≠ 0 then do
    let midMantissa := (cachedBid + cachedAsk).tdiv 2
    let (midNum, midDen) ← okOr .invalidEffectiveSpread
      (pythPriceToRawFraction midMantissa cachedExponent s.mint0Decimals s.mint1Decimals)
    let (token0Net, token1Net) := params.tradeDirection.orient
      (params.totalInputTokenAmount, params.totalOutputTokenAmount)
    let imbalance ← noneOr 0 (computeInventoryImbalanceBps token0Net token1Net midNum midDen)
    let skew := computeInventorySkewBps imbalance s.inventorySkewDeadzoneBps
      s.inventorySkewBpsPerPct s.inventorySkewMaxBps
    let shiftedBid ← okOr .invalidInventorySkewShift (shiftMantissaBySignedBps cachedBid skew)
    let shiftedAsk ← okOr .invalidInventorySkewShift (shiftMantissaBySignedBps cachedAsk skew)
    pure ⟨imbalance, skew, shiftedBid, shiftedAsk⟩
  else pure ⟨0, 0, cachedBid, cachedAsk⟩

/-- A mantissa as a raw fraction, at the pool's exponent and decimals. -/
def rawPrice (s : PoolState) (mantissa : Int) : Option (Nat × Nat) :=
  pythPriceToRawFraction mantissa s.priceExponent s.mint0Decimals s.mint1Decimals

/-- The cached quote of a direction as output per input, before any skew. -/
def rawSpot (s : PoolState) (direction : TradeDirection) : Option (Nat × Nat) :=
  (s.rawPrice (match direction with
    | .zeroForOne => s.effectiveBidMantissa
    | .oneForZero => s.effectiveAskMantissa)).map direction.orient

end PoolState

namespace Instructions

/-- The checks both handlers open with; returns the cached bid, ask and exponent. -/
def openSwap (m : Market) (clock : Clock) : Exec (Int × Int × Int) := do
  let cached ← okOr .oracleNotInitialized m.poolState.cachedOracleQuote
  require (m.poolState.getStatusByBit .swap = true ∧ m.poolState.openTime ≤ clock.blockTimestamp)
    (.code .notApproved)
  pure cached

def priceSwap (m : Market) (inputVault outputVault : TokenSide) (cached : Int × Int × Int) :
    Exec Pricing := do
  let (cachedBid, cachedAsk, cachedExponent) := cached
  let params ← m.poolState.getSwapParams inputVault outputVault (m.vault.get inputVault)
    (m.vault.get outputVault)
  let quote ← m.poolState.skewedQuote params cachedBid cachedAsk cachedExponent
  let canonical ← okOr .invalidEffectiveSpread (pythPriceToRawFraction
    (quote.effectiveMantissa params.tradeDirection) cachedExponent m.poolState.mint0Decimals
    m.poolState.mint1Decimals)
  let (spotNum, spotDen) := params.tradeDirection.orient canonical
  pure { params, exponent := cachedExponent, quote, spotNum, spotDen
         effectiveTradeFeeRate := m.poolState.effectiveTradeFeeRate m.ammConfig.tradeFeeRate
         creatorFeeRate := m.poolState.adjustCreatorFeeRate m.ammConfig.creatorFeeRate }

/-- A curve entry point at the price and rates of a pricing. -/
def runCurve (curve : Nat → Nat → Nat → Nat → Nat → Nat → Nat → Bool → Nat → Nat → Exec SwapResult)
    (m : Market) (p : Pricing) (amount : Nat) : Exec SwapResult :=
  noneTo .zeroTradingTokens (curve amount p.params.totalInputTokenAmount
    p.params.totalOutputTokenAmount p.effectiveTradeFeeRate p.creatorFeeRate
    m.ammConfig.protocolFeeRate m.ammConfig.fundFeeRate p.params.isCreatorFeeOnInput p.spotNum
    p.spotDen)

/-- `swap_base_input` up to the first write. -/
def quoteBaseInput (m : Market) (env : Env) (inputVault outputVault : TokenSide)
    (amountIn minimumAmountOut : Nat) : Exec SwapQuote := do
  let cached ← openSwap m env.clock
  let transferFee ← getTransferFee (env.mint inputVault) env.clock.epoch amountIn
  let actualAmountIn := amountIn - transferFee
  require (0 < actualAmountIn) (.anchor .requireGtViolated)
  let pricing ← priceSwap m inputVault outputVault cached
  let result ← runCurve CurveCalculator.swapBaseInput m pricing actualAmountIn
  let inputAmount ← unwrap (tryFrom 64 result.inputAmount)
  require (inputAmount = actualAmountIn) (.anchor .requireEqViolated)
  let amountOut ← unwrap (tryFrom 64 result.outputAmount)
  let outputTransferFee ← getTransferFee (env.mint outputVault) env.clock.epoch amountOut
  let amountReceived ← unwrap (checkedSub amountOut outputTransferFee)
  require (0 < amountReceived) (.anchor .requireGtViolated)
  require (minimumAmountOut ≤ amountReceived) (.code .exceededSlippage)
  pure { pricing, result, baseInput := true, inputTransferAmount := amountIn,
         inputTransferFee := transferFee, outputTransferAmount := amountOut, outputTransferFee }

/-- `swap_base_output` up to the first write. -/
def quoteBaseOutput (m : Market) (env : Env) (inputVault outputVault : TokenSide)
    (maxAmountIn amountOutReceived : Nat) : Exec SwapQuote := do
  require (0 < amountOutReceived) (.anchor .requireGtViolated)
  let cached ← openSwap m env.clock
  let outTransferFee ←
    getTransferInverseFee (env.mint outputVault) env.clock.epoch amountOutReceived
  let amountOutWithTransferFee ← unwrap (checkedAdd 64 amountOutReceived outTransferFee)
  let pricing ← priceSwap m inputVault outputVault cached
  let result ← runCurve CurveCalculator.swapBaseOutput m pricing amountOutWithTransferFee
  let inputAmount ← unwrap (tryFrom 64 result.inputAmount)
  require (0 < inputAmount) (.anchor .requireGtViolated)
  let inputTransferFee ← getTransferInverseFee (env.mint inputVault) env.clock.epoch inputAmount
  let inputTransferAmount ← unwrap (checkedAdd 64 inputAmount inputTransferFee)
  require (inputTransferAmount ≤ maxAmountIn) (.code .exceededSlippage)
  let outputAmount ← unwrap (tryFrom 64 result.outputAmount)
  require (outputAmount = amountOutWithTransferFee) (.anchor .requireEqViolated)
  pure { pricing, result, baseInput := false, inputTransferAmount, inputTransferFee,
         outputTransferAmount := amountOutWithTransferFee, outputTransferFee := outTransferFee }

/-- The event of a swap; its amounts are unwrapped conversions. -/
def swapEvent (m : Market) (q : SwapQuote) (inputVault outputVault : TokenSide) :
    Exec SwapEvent := do
  let inputAmount ← unwrap (tryFrom 64 q.result.inputAmount)
  let outputAmount ← unwrap (tryFrom 64 q.result.outputAmount)
  let tradeFee ← unwrap (tryFrom 64 q.result.tradeFee)
  let creatorFee ← unwrap (tryFrom 64 q.result.creatorFee)
  pure { inputVaultBefore := q.pricing.params.totalInputTokenAmount
         outputVaultBefore := q.pricing.params.totalOutputTokenAmount
         inputAmount, outputAmount
         inputTransferFee := q.inputTransferFee
         outputTransferFee := q.outputTransferFee
         baseInput := q.baseInput
         inputMint := inputVault
         outputMint := outputVault
         tradeFee, creatorFee
         creatorFeeOnInput := q.pricing.params.isCreatorFeeOnInput
         oracleBid := q.pricing.quote.bidMantissa
         oracleAsk := q.pricing.quote.askMantissa
         oracleExponent := q.pricing.exponent
         oracleLastUpdateUnix := m.poolState.lastOracleUpdateUnix
         effectiveTradeFeeRate := q.pricing.effectiveTradeFeeRate
         inventoryImbalanceBps := q.pricing.quote.inventoryImbalanceBps
         inventorySkewBps := q.pricing.quote.inventorySkewBps }

/-- The writes of both handlers: fee counters, the two transfers, the observation. -/
def settleSwap (m : Market) (env : Env) (inputVault outputVault : TokenSide) (userAmount : Nat)
    (toVault : Bool) (q : SwapQuote) : Exec (Market × SwapReceipt) := do
  let protocolFee ← unwrap (tryFrom 64 q.result.protocolFee)
  let fundFee ← unwrap (tryFrom 64 q.result.fundFee)
  let creatorFee ← unwrap (tryFrom 64 q.result.creatorFee)
  let poolState ← m.poolState.updateFees protocolFee fundFee creatorFee
    q.pricing.params.tradeDirection
  let event ← swapEvent m q inputVault outputVault
  let inputVaultAmount ← transferFromUserToPoolVault (env.mint inputVault) env.clock.epoch
    userAmount (m.vault.get inputVault) q.inputTransferAmount
  let outputVaultAmount ← transferFromPoolVaultToUser (m.vault.get outputVault)
    q.outputTransferAmount toVault
  let observationState ← m.observationState.update env.clock.blockTimestamp
    q.pricing.params.token0PriceX64 q.pricing.params.token1PriceX64
  pure ({ m with
    poolState := { poolState with recentEpoch := env.clock.epoch }
    vault := (m.vault.set inputVault inputVaultAmount).set outputVault outputVaultAmount
    observationState }, ⟨q.result, event⟩)

def swapBaseInput (m : Market) (env : Env) (inputVault outputVault : TokenSide)
    (amountIn minimumAmountOut userAmount : Nat) (toVault : Bool) :
    Exec (Market × SwapReceipt) := do
  let q ← quoteBaseInput m env inputVault outputVault amountIn minimumAmountOut
  settleSwap m env inputVault outputVault userAmount toVault q

def swapBaseOutput (m : Market) (env : Env) (inputVault outputVault : TokenSide)
    (maxAmountIn amountOutReceived userAmount : Nat) (toVault : Bool) :
    Exec (Market × SwapReceipt) := do
  let q ← quoteBaseOutput m env inputVault outputVault maxAmountIn amountOutReceived
  settleSwap m env inputVault outputVault userAmount toVault q

end Instructions

end NomadAmm

import NomadAmm.Client.OracleMath
import NomadAmm.Instructions.Admin

/-! `bot/src/`: what the keeper bot reads at startup, what it computes from a quote, and
how one tick of it ends. The network is left out but for its failures: an account that
cannot be fetched or decoded, a transaction that is not delivered. -/

namespace NomadAmm.Bot

open Lib.Checked Client

/-- `pyth.rs`: the latest parsed quote. -/
structure LatestQuote where
  priceMantissa : Int
  confidenceMantissa : Option Int
  bestBidMantissa : Option Int
  bestAskMantissa : Option Int
  exponent : Int
  deriving DecidableEq, Repr

/-! ## `state.rs` -/

structure PoolCache where
  minSpreadBps : Nat
  baseTradeFeeRate : Nat
  deriving DecidableEq, Repr

inductive LoadError
  | fetch
  | notOracleKeeper (poolOracleKeeper : Pubkey)
  | feedIdMismatch (poolFeedId : Nat)
  | zeroMinSpread
  | tradeFeeRate (baseTradeFeeRate : Nat)
  deriving DecidableEq, Repr

/-- `none` is an account that could not be fetched or decoded. -/
def loadBlocking (poolState : Option PoolState) (ammConfig : Option AmmConfig) (signer : Pubkey)
    (feedId : Nat) : Except LoadError PoolCache :=
  match poolState with
  | none => .error .fetch
  | some pool =>
    if pool.oracleKeeper ≠ signer then .error (.notOracleKeeper pool.oracleKeeper)
    else if pool.pythPriceFeedId ≠ feedId then .error (.feedIdMismatch pool.pythPriceFeedId)
    else if pool.minSpreadBps = 0 then .error .zeroMinSpread
    else match ammConfig with
      | none => .error .fetch
      | some config =>
        if feeRateDenominatorValue ≤ config.tradeFeeRate then
          .error (.tradeFeeRate config.tradeFeeRate)
        else .ok { minSpreadBps := pool.minSpreadBps, baseTradeFeeRate := config.tradeFeeRate }

/-! ## `keeper.rs` -/

def feeRateUnitsPerBps : Nat := 100

/-- The confidence in basis points of a positive price; `as u64` keeps the low 64 bits. -/
def confidenceBps (confidenceMantissa : Option Int) (priceMantissa : Int) : Nat :=
  match confidenceMantissa with
  | some c => if 0 < c then c.toNat * 10000 / priceMantissa.toNat % 2 ^ 64 else 0
  | none => 0

def computeDynamicFeeRate (baseTradeFeeRate : Nat) (confidenceMantissa : Option Int)
    (priceMantissa : Int) : Nat :=
  if priceMantissa ≤ 0 then min baseTradeFeeRate (feeRateDenominatorValue - 1)
  else
    let surcharge :=
      saturatingMul 64 (confidenceBps confidenceMantissa priceMantissa) feeRateUnitsPerBps
    min (saturatingAdd 64 baseTradeFeeRate surcharge) (feeRateDenominatorValue - 1)

/-- The values to push; a quote the oracle math rejects is the error. -/
def computeUpdateFields (quote : LatestQuote) (cache : PoolCache) :
    Except LatestQuote (Int × Int × Nat) :=
  let spreadBps := computeConfidenceAdjustedMinSpreadBps cache.minSpreadBps
    quote.confidenceMantissa quote.priceMantissa
  match computeEffectiveBidAskMantissas quote.priceMantissa quote.bestBidMantissa
      quote.bestAskMantissa spreadBps with
  | none => .error quote
  | some (effectiveBid, effectiveAsk) =>
    let dynamicFeeRate := computeDynamicFeeRate cache.baseTradeFeeRate quote.confidenceMantissa
      quote.priceMantissa
    .ok (effectiveBid, effectiveAsk, dynamicFeeRate)

/-! ## `pusher.rs` -/

/-- How a send fails: the program's answer, or none. -/
inductive ClientError
  | program (fault : Fault)
  | undelivered
  deriving DecidableEq, Repr

inductive PushError
  | fatal (error : ClientError)
  | transient (error : ClientError)
  deriving DecidableEq, Repr

def fatalCodes : List ErrorCode :=
  [.invalidEffectiveSpread, .bidNotLessThanAsk, .invalidDynamicFeeRate, .invalidOracleKeeper]

/-- A failure whose text names a fatal code is fatal. -/
def classifyError (error : ClientError) : PushError :=
  match error with
  | .program (.code c) => if c ∈ fatalCodes then .fatal error else .transient error
  | _ => .transient error

/-- The push of one update, as the program answers it when it is delivered. -/
def send (m : Market) (env : Env) (keypair : Pubkey) (delivered : Bool)
    (effectiveBid effectiveAsk priceExponent : Int) (dynamicFeeRate : Nat) :
    Except PushError (Market × OracleUpdated) :=
  if delivered then
    match Instructions.updatePoolOracle m env keypair effectiveBid effectiveAsk priceExponent
        dynamicFeeRate with
    | .ok r => .ok r
    | .error fault => .error (classifyError (.program fault))
  else .error (classifyError .undelivered)

inductive TickError
  | noQuote
  | rejectedQuote (quote : LatestQuote)
  | transient (error : ClientError)
  | fatal (error : ClientError)
  deriving DecidableEq, Repr

/-- One tick: without a quote, or with one the math rejects, nothing is sent. -/
def tick (m : Market) (env : Env) (keypair : Pubkey) (delivered : Bool) (cache : PoolCache)
    (latest : Option LatestQuote) : Except TickError (Market × OracleUpdated) :=
  match latest with
  | none => .error .noQuote
  | some quote =>
    match computeUpdateFields quote cache with
    | .error rejected => .error (.rejectedQuote rejected)
    | .ok (effectiveBid, effectiveAsk, dynamicFeeRate) =>
      match send m env keypair delivered effectiveBid effectiveAsk quote.exponent
          dynamicFeeRate with
      | .ok r => .ok r
      | .error (.fatal error) => .error (.fatal error)
      | .error (.transient error) => .error (.transient error)

/-! ## What the keeper computes -/

variable {poolState : Option PoolState} {ammConfig : Option AmmConfig} {signer : Pubkey}
  {feedId base fee : Nat} {cache : PoolCache} {quote : LatestQuote} {bid ask : Int}

/-- A cache is accepted from a pool of this keeper, with a spread and a rate below 100 %. -/
theorem loadBlocking_spec (h : loadBlocking poolState ammConfig signer feedId = .ok cache) :
    ∃ pool config, poolState = some pool ∧ ammConfig = some config ∧ pool.oracleKeeper = signer ∧
      cache.minSpreadBps = pool.minSpreadBps ∧ cache.minSpreadBps ≠ 0 ∧
      cache.baseTradeFeeRate = config.tradeFeeRate ∧
      cache.baseTradeFeeRate < feeRateDenominatorValue := by
  unfold loadBlocking at h
  split at h
  · cases h
  · next pool =>
    split at h
    · cases h
    · next hkeeper =>
      split at h
      · cases h
      · split at h
        · cases h
        · next hspread =>
          split at h
          · cases h
          · next config =>
            split at h
            · cases h
            · next hrate =>
              cases h
              exact ⟨pool, config, rfl, rfl, not_not.mp hkeeper, rfl, hspread, rfl, not_le.mp hrate⟩

/-- The dynamic rate starts at the base rate and stays below the denominator. -/
theorem computeDynamicFeeRate_bounds (hbase : base < feeRateDenominatorValue)
    (confidence : Option Int) (price : Int) :
    base ≤ computeDynamicFeeRate base confidence price ∧
      computeDynamicFeeRate base confidence price < feeRateDenominatorValue := by
  have hD : feeRateDenominatorValue = 1000000 := rfl
  unfold computeDynamicFeeRate
  split
  · omega
  · dsimp only [saturatingAdd]
    omega

theorem computeUpdateFields_spec (h : computeUpdateFields quote cache = .ok (bid, ask, fee)) :
    computeEffectiveBidAskMantissas quote.priceMantissa quote.bestBidMantissa
        quote.bestAskMantissa (computeConfidenceAdjustedMinSpreadBps cache.minSpreadBps
          quote.confidenceMantissa quote.priceMantissa) = some (bid, ask) ∧
      fee = computeDynamicFeeRate cache.baseTradeFeeRate quote.confidenceMantissa
        quote.priceMantissa := by
  unfold computeUpdateFields at h
  dsimp only at h
  split at h
  · cases h
  · next effectiveBid effectiveAsk heq =>
    cases h
    exact ⟨heq, rfl⟩

end NomadAmm.Bot

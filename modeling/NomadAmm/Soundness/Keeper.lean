import NomadAmm.Bot.Keeper
import NomadAmm.Program
import NomadAmm.Soundness.SpreadFloor

/-! The keeper against the chain. What a keeper computes from any quote, however broken its
sides, passes every check of the instruction it is pushed to, so the only fatal answer left
is that the pool has another keeper by now. -/

namespace NomadAmm.Soundness.Keeper

open Exec Client NomadAmm.Bot Instructions SpreadFloor

variable {bid ask : Int} {fee : Nat} {m : Market} {env : Env} {keeper : Pubkey}

/-! ## The chain's answer -/

/-- Values in range are refused to another keeper only. -/
theorem updatePoolOracle_of_valid (m : Market) (env : Env) (keeper : Pubkey) (exponent : Int)
    (hpos : 0 < bid) (hle : bid ≤ ask) (hfee : fee < feeRateDenominatorValue) :
    (m.poolState.oracleKeeper = keeper ∧
      ∃ r, updatePoolOracle m env keeper bid ask exponent fee = .ok r) ∨
    (m.poolState.oracleKeeper ≠ keeper ∧
      updatePoolOracle m env keeper bid ask exponent fee =
        .error (.code .invalidOracleKeeper)) := by
  by_cases hkeeper : m.poolState.oracleKeeper = keeper
  · refine .inl ⟨hkeeper, ?_⟩
    simp only [updatePoolOracle, require_pos hkeeper, require_pos hpos, require_pos hle,
      require_pos hfee, ok_bind]
    exact ⟨_, rfl⟩
  · refine .inr ⟨hkeeper, ?_⟩
    rw [updatePoolOracle, require_neg hkeeper, error_bind]

/-- A computed update is in range. -/
theorem computeUpdateFields_valid {cache : PoolCache} {quote : LatestQuote}
    (hbase : cache.baseTradeFeeRate < feeRateDenominatorValue)
    (h : computeUpdateFields quote cache = .ok (bid, ask, fee)) :
    (bid ≤ quote.priceMantissa ∧ quote.priceMantissa ≤ ask ∧ 0 < bid ∧ bid ≤ ask) ∧
      fee < feeRateDenominatorValue ∧ cache.baseTradeFeeRate ≤ fee := by
  obtain ⟨hquote, rfl⟩ := computeUpdateFields_spec h
  obtain ⟨hge, hlt⟩ := computeDynamicFeeRate_bounds hbase quote.confidenceMantissa
    quote.priceMantissa
  exact ⟨quote_around_price hquote, hlt, hge⟩

/-- A tick ends the bot only where the pool has another keeper. -/
theorem tick_fatal {cache : PoolCache} {delivered : Bool} {latest : Option LatestQuote}
    {error : ClientError} (hbase : cache.baseTradeFeeRate < feeRateDenominatorValue)
    (h : tick m env keeper delivered cache latest = .error (.fatal error)) :
    error = .program (.code .invalidOracleKeeper) ∧ m.poolState.oracleKeeper ≠ keeper := by
  cases latest with
  | none => cases h
  | some quote =>
    unfold tick at h
    dsimp only at h
    cases hfields : computeUpdateFields quote cache with
    | error rejected =>
      rw [hfields] at h
      cases h
    | ok fields =>
      obtain ⟨bid, ask, fee⟩ := fields
      obtain ⟨⟨-, -, hpos, hle⟩, hfee, -⟩ := computeUpdateFields_valid hbase hfields
      rw [hfields] at h
      cases delivered with
      | false => cases h
      | true =>
        rcases updatePoolOracle_of_valid m env keeper quote.exponent hpos hle hfee with
          ⟨-, r, hok⟩ | ⟨hkeeper, herror⟩
        · simp only [send, hok, if_true] at h
          cases h
        · simp only [send, herror, if_true] at h
          cases h
          exact ⟨rfl, hkeeper⟩

/-- **The keeper never produces an update the chain rejects.** Whatever the quote, what is
computed from it lies around its price and passes the checks of the push; no tick is fatal
for the numbers it computed. -/
theorem keeper_never_rejected (poolState : Option PoolState) (ammConfig : Option AmmConfig)
    (signer : Pubkey) (feedId : Nat) (cache : PoolCache)
    (hload : loadBlocking poolState ammConfig signer feedId = .ok cache) :
    (∀ quote bid ask fee, computeUpdateFields quote cache = .ok (bid, ask, fee) →
      bid ≤ quote.priceMantissa ∧ quote.priceMantissa ≤ ask ∧ 0 < bid ∧ bid ≤ ask ∧
        fee < feeRateDenominatorValue ∧ cache.baseTradeFeeRate ≤ fee ∧
        ∀ m env keeper exponent, m.poolState.oracleKeeper = keeper →
          ∃ r, updatePoolOracle m env keeper bid ask exponent fee = .ok r) ∧
    (∀ m env delivered latest error,
      tick m env signer delivered cache latest = .error (.fatal error) →
      error = .program (.code .invalidOracleKeeper) ∧ m.poolState.oracleKeeper ≠ signer) := by
  obtain ⟨_, _, _, _, _, _, _, _, hbase⟩ := loadBlocking_spec hload
  constructor
  · intro quote bid ask fee h
    obtain ⟨⟨hbid, hask, hpos, hle⟩, hfee, hge⟩ := computeUpdateFields_valid hbase h
    refine ⟨hbid, hask, hpos, hle, hfee, hge, ?_⟩
    intro m env keeper exponent hkeeper
    rcases updatePoolOracle_of_valid m env keeper exponent hpos hle hfee with
      ⟨-, hok⟩ | ⟨hother, -⟩
    · exact hok
    · exact absurd hkeeper hother
  · intro m env delivered latest error h
    exact tick_fatal hbase h

/-- A quote with a wide ask, a broken bid and some confidence. -/
def exampleQuote : LatestQuote where
  priceMantissa := 100000000
  confidenceMantissa := some 100000
  bestBidMantissa := some (-5)
  bestAskMantissa := some 101000000
  exponent := -8

theorem keeper_never_rejected_examplePool :
    ∃ r, updatePoolOracle examplePool (exampleEnv 1050) 9 99925000 101000000 (-8) 3500 = .ok r := by
  have hload : loadBlocking (some examplePool.poolState) (some examplePool.ammConfig) 9 1 =
      .ok ⟨5, 2500⟩ := by decide +kernel
  have hfields : computeUpdateFields exampleQuote ⟨5, 2500⟩ = .ok (99925000, 101000000, 3500) := by
    decide +kernel
  obtain ⟨-, -, -, -, -, -, haccepts⟩ :=
    (keeper_never_rejected _ _ 9 1 ⟨5, 2500⟩ hload).1 exampleQuote _ _ _ hfields
  exact haccepts examplePool (exampleEnv 1050) 9 (-8) rfl

end NomadAmm.Soundness.Keeper

import NomadAmm.States.Market

/-! `instructions/admin/` and `collect_creator_fee.rs`: status, oracle pushes, and the
collection of the three kinds of fees. -/

namespace NomadAmm.Instructions

open Lib.Checked Exec

def updatePoolStatus (m : Market) (env : Env) (authority : Pubkey) (status : Nat) :
    Exec Market := do
  require (authority = adminId) (.anchor .constraintAddress)
  require (status ≤ 255) (.anchor .requireGteViolated)
  pure { m with poolState := { m.poolState with status, recentEpoch := env.clock.epoch } }

def updatePoolOracle (m : Market) (env : Env) (oracleKeeper : Pubkey)
    (effectiveBidMantissa effectiveAskMantissa priceExponent : Int) (dynamicFeeRate : Nat) :
    Exec (Market × OracleUpdated) := do
  require (m.poolState.oracleKeeper = oracleKeeper) (.code .invalidOracleKeeper)
  require (0 < effectiveBidMantissa) (.code .invalidEffectiveSpread)
  require (effectiveBidMantissa ≤ effectiveAskMantissa) (.code .bidNotLessThanAsk)
  require (dynamicFeeRate < feeRateDenominatorValue) (.code .invalidDynamicFeeRate)
  pure ({ m with poolState := { m.poolState with
      effectiveBidMantissa, effectiveAskMantissa, priceExponent, dynamicFeeRate
      lastOracleUpdateSlot := env.clock.slot
      lastOracleUpdateUnix := env.clock.unixTimestamp } },
    ⟨effectiveBidMantissa, effectiveAskMantissa, priceExponent, dynamicFeeRate, env.clock.slot,
      env.clock.unixTimestamp⟩)

def setOracleKeeper (m : Market) (authority newKeeper : Pubkey) : Exec Market := do
  require (authority = adminId) (.anchor .constraintAddress)
  pure { m with poolState := { m.poolState with oracleKeeper := newKeeper } }

/-! ## Collecting fees -/

/-- The vaults after `amount` left each of them. -/
def payFees (vault amount : PerToken Nat) (toVault : PerToken Bool) : Exec (PerToken Nat) := do
  let token0 ← transferFromPoolVaultToUser vault.token0 amount.token0 toVault.token0
  let token1 ← transferFromPoolVaultToUser vault.token1 amount.token1 toVault.token1
  pure { token0, token1 }

/-- At most the counter is collected. -/
def collectable (fees requested : PerToken Nat) : PerToken Nat :=
  ⟨min requested.token0 fees.token0, min requested.token1 fees.token1⟩

/-- The counters after `amount` was collected, by an unwrapped `checked_sub`. -/
def lowerFees (fees amount : PerToken Nat) : Exec (PerToken Nat) := do
  let token0 ← unwrap (checkedSub fees.token0 amount.token0)
  let token1 ← unwrap (checkedSub fees.token1 amount.token1)
  pure { token0, token1 }

/-- Collecting one kind of fee, by its owner or the admin: the counters first, the
transfers after. -/
def collectFee (m : Market) (env : Env) (feeOwner owner : Pubkey) (fees requested : PerToken Nat)
    (write : PoolState → PerToken Nat → PoolState) (toVault : PerToken Bool) : Exec Market := do
  require (owner = feeOwner ∨ owner = adminId) (.code .invalidOwner)
  let amount := collectable fees requested
  let lowered ← lowerFees fees amount
  let vault ← payFees m.vault amount toVault
  pure { m with
    poolState := { write m.poolState lowered with recentEpoch := env.clock.epoch }
    vault }

def collectProtocolFee (m : Market) (env : Env) (owner : Pubkey) (requested : PerToken Nat)
    (toVault : PerToken Bool) : Exec Market :=
  collectFee m env m.ammConfig.protocolOwner owner m.poolState.protocolFees requested
    (fun s fees => { s with protocolFees := fees }) toVault

def collectFundFee (m : Market) (env : Env) (owner : Pubkey) (requested : PerToken Nat)
    (toVault : PerToken Bool) : Exec Market :=
  collectFee m env m.ammConfig.fundOwner owner m.poolState.fundFees requested
    (fun s fees => { s with fundFees := fees }) toVault

/-- The creator collects everything, into accounts of his own. -/
def collectCreatorFee (m : Market) (env : Env) (creator : Pubkey) : Exec Market := do
  require (creator = m.poolState.poolCreator) (.anchor .constraintAddress)
  require (m.poolState.creatorFees.token0 ≠ 0 ∨ m.poolState.creatorFees.token1 ≠ 0)
    (.code .noFeeCollect)
  let vault ← payFees m.vault m.poolState.creatorFees ⟨false, false⟩
  pure { m with
    poolState := { m.poolState with creatorFees := ⟨0, 0⟩, recentEpoch := env.clock.epoch }
    vault }

end NomadAmm.Instructions

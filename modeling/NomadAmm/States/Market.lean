import NomadAmm.States.Oracle
import NomadAmm.States.Pool
import NomadAmm.Utils.Token

/-! The accounts the instructions of one pool read and write, the sysvar and mints a
call sees, and `states/events.rs`. An event names a mint by its token. -/

namespace NomadAmm

structure Clock where
  unixTimestamp : Int
  slot : Nat
  epoch : Nat
  deriving DecidableEq, Repr

/-- `unix_timestamp.max(0) as u64`. -/
def Clock.blockTimestamp (clock : Clock) : Nat := (max clock.unixTimestamp 0).toNat

/-- `unix_timestamp as u64`. -/
def Clock.unixTimestampU64 (clock : Clock) : Nat := (clock.unixTimestamp % 2 ^ 64).toNat

/-- What a call is given besides its arguments. The mints may change their transfer
fees between calls. -/
structure Env where
  clock : Clock
  mints : PerToken Mint

def Env.mint (env : Env) (side : TokenSide) : Mint := env.mints.get side

/-- One pool with the accounts it belongs to. -/
structure Market where
  ammConfig : AmmConfig
  poolState : PoolState
  vault : PerToken Nat
  lpMintSupply : Nat
  observationState : ObservationState
  deriving DecidableEq

namespace Market

def owed (m : Market) (side : TokenSide) : Nat := m.poolState.owed side

/-- What is left of a vault after everything owed in it. -/
def net (m : Market) (side : TokenSide) : Nat := m.vault.get side - m.owed side

def nets (m : Market) : PerToken Nat := ⟨m.net .token0, m.net .token1⟩

end Market

/-! ## Events -/

structure SwapEvent where
  inputVaultBefore : Nat
  outputVaultBefore : Nat
  inputAmount : Nat
  outputAmount : Nat
  inputTransferFee : Nat
  outputTransferFee : Nat
  baseInput : Bool
  inputMint : TokenSide
  outputMint : TokenSide
  tradeFee : Nat
  creatorFee : Nat
  creatorFeeOnInput : Bool
  oracleBid : Int
  oracleAsk : Int
  oracleExponent : Int
  oracleLastUpdateUnix : Int
  effectiveTradeFeeRate : Nat
  inventoryImbalanceBps : Int
  inventorySkewBps : Int
  deriving DecidableEq, Repr

structure LpChangeEvent where
  lpAmountBefore : Nat
  token0VaultBefore : Nat
  token1VaultBefore : Nat
  token0Amount : Nat
  token1Amount : Nat
  token0TransferFee : Nat
  token1TransferFee : Nat
  changeType : Nat
  deriving DecidableEq, Repr

structure OracleUpdated where
  effectiveBidMantissa : Int
  effectiveAskMantissa : Int
  priceExponent : Int
  dynamicFeeRate : Nat
  slot : Nat
  unixTimestamp : Int
  deriving DecidableEq, Repr

end NomadAmm

import NomadAmm.Instructions.Admin
import NomadAmm.Instructions.Initialize
import NomadAmm.Instructions.Liquidity
import NomadAmm.Instructions.Swap
import NomadAmm.Lib.Transition

/-! One pool as a state machine: the instructions of `lib.rs` on its accounts, and the
two things the token programs let anyone do to them, a donation to a vault and the
burning of LP tokens. -/

namespace NomadAmm

open Lib.Transition Exec

/-- A call with its arguments and the balances of the accounts it is signed for.
`toVault` says that a payout goes back to the vault it comes from. -/
inductive Op
  | updateAmmConfig (owner : Pubkey) (param value : Nat) (remaining : Option Pubkey)
  | updatePoolStatus (authority : Pubkey) (status : Nat)
  | updatePoolOracle (oracleKeeper : Pubkey)
      (effectiveBidMantissa effectiveAskMantissa priceExponent : Int) (dynamicFeeRate : Nat)
  | setOracleKeeper (authority newKeeper : Pubkey)
  | collectProtocolFee (owner : Pubkey) (requested : PerToken Nat) (toVault : PerToken Bool)
  | collectFundFee (owner : Pubkey) (requested : PerToken Nat) (toVault : PerToken Bool)
  | collectCreatorFee (creator : Pubkey)
  | deposit (lpTokenAmount maximumToken0Amount maximumToken1Amount : Nat)
      (ownerAmount : PerToken Nat)
  | withdraw (lpTokenAmount minimumToken0Amount minimumToken1Amount ownerLpToken : Nat)
      (toVault : PerToken Bool)
  | swapBaseInput (inputVault outputVault : TokenSide)
      (amountIn minimumAmountOut userAmount : Nat) (toVault : Bool)
  | swapBaseOutput (inputVault outputVault : TokenSide)
      (maxAmountIn amountOutReceived userAmount : Nat) (toVault : Bool)
  | donate (side : TokenSide) (amount userAmount : Nat)
  | burnLp (amount held : Nat)
  deriving DecidableEq, Repr

inductive Event
  | done
  | oracle (event : OracleUpdated)
  | lpChange (event : LpChangeEvent)
  | swap (receipt : SwapReceipt)
  deriving DecidableEq, Repr

/-- A call in its environment. -/
structure Call where
  env : Env
  op : Op

namespace Market

/-- A transfer into a vault outside the program. -/
def donate (m : Market) (env : Env) (side : TokenSide) (amount userAmount : Nat) : Exec Market := do
  let vaultAmount ← transferFromUserToPoolVault (env.mint side) env.clock.epoch userAmount
    (m.vault.get side) amount
  pure { m with vault := m.vault.set side vaultAmount }

/-- LP tokens burned outside the program. -/
def burnLp (m : Market) (amount held : Nat) : Exec Market := do
  let lpMintSupply ← tokenBurn m.lpMintSupply held amount
  pure { m with lpMintSupply }

/-- A state with no event to report. -/
def quiet (r : Exec Market) : Exec (Market × Event) := do
  pure (← r, .done)

def step (m : Market) (call : Call) : Exec (Market × Event) :=
  match call.op with
  | .updateAmmConfig owner param value remaining => quiet do
    let ammConfig ← NomadAmm.updateAmmConfig owner m.ammConfig param value remaining
    pure { m with ammConfig }
  | .updatePoolStatus authority status =>
    quiet (Instructions.updatePoolStatus m call.env authority status)
  | .updatePoolOracle oracleKeeper bid ask exponent dynamicFeeRate => do
    let (m', event) ←
      Instructions.updatePoolOracle m call.env oracleKeeper bid ask exponent dynamicFeeRate
    pure (m', .oracle event)
  | .setOracleKeeper authority newKeeper =>
    quiet (Instructions.setOracleKeeper m authority newKeeper)
  | .collectProtocolFee owner requested toVault =>
    quiet (Instructions.collectProtocolFee m call.env owner requested toVault)
  | .collectFundFee owner requested toVault =>
    quiet (Instructions.collectFundFee m call.env owner requested toVault)
  | .collectCreatorFee creator => quiet (Instructions.collectCreatorFee m call.env creator)
  | .deposit lpTokenAmount maximum0 maximum1 ownerAmount => do
    let (m', event) ←
      Instructions.deposit m call.env lpTokenAmount maximum0 maximum1 ownerAmount
    pure (m', .lpChange event)
  | .withdraw lpTokenAmount minimum0 minimum1 ownerLpToken toVault => do
    let (m', event) ←
      Instructions.withdraw m call.env lpTokenAmount minimum0 minimum1 ownerLpToken toVault
    pure (m', .lpChange event)
  | .swapBaseInput inputVault outputVault amountIn minimumAmountOut userAmount toVault => do
    let (m', receipt) ← Instructions.swapBaseInput m call.env inputVault outputVault amountIn
      minimumAmountOut userAmount toVault
    pure (m', .swap receipt)
  | .swapBaseOutput inputVault outputVault maxAmountIn amountOut userAmount toVault => do
    let (m', receipt) ← Instructions.swapBaseOutput m call.env inputVault outputVault maxAmountIn
      amountOut userAmount toVault
    pure (m', .swap receipt)
  | .donate side amount userAmount => quiet (m.donate call.env side amount userAmount)
  | .burnLp amount held => quiet (m.burnLp amount held)

/-- A pool as either instruction creates it, under a config account as it can be. -/
inductive Initial : Market → Prop
  | permissionless {c env creator args payer m} : c.Reachable →
      Instructions.initializePermissionless c env creator args payer = .ok m → Initial m
  | withPermission {c env creator creatorFeeOn args permission payer m} : c.Reachable →
      Instructions.initializeWithPermission c env creator creatorFeeOn args permission payer =
        .ok m → Initial m

/-- A pool after any calls, the failed ones without effect. -/
def Reachable (m : Market) : Prop := ∃ m₀ calls, Initial m₀ ∧ m = replay step m₀ calls

theorem Reachable.replay {m : Market} (h : m.Reachable) (calls : List Call) :
    (replay step m calls).Reachable := by
  obtain ⟨m₀, before, hinit, rfl⟩ := h
  exact ⟨m₀, before ++ calls, hinit, (replay_append m₀ before calls).symm⟩

end Market

/-! ## A pool to look at

Two mints of six decimals, equal reserves, a trade fee of 0.25 % and a creator fee of
0.1 %, quoted at one for one. -/

def exampleEnv (time : Nat) : Env :=
  ⟨⟨time, time, 1⟩, ⟨Mint.plain 6, Mint.plain 6⟩⟩

def exampleConfig : AmmConfig where
  disableCreatePool := false
  index := 0
  tradeFeeRate := 2500
  protocolFeeRate := 120000
  fundFeeRate := 40000
  createPoolFee := 0
  protocolOwner := adminId
  fundOwner := adminId
  creatorFeeRate := 1000

def exampleArgs : Instructions.InitializeArgs where
  initAmount0 := 1000000000
  initAmount1 := 1000000000
  openTime := 0
  pythPriceFeedId := 1
  minSpreadBps := 5
  inventorySkewEnabled := false
  inventorySkewDeadzoneBps := 0
  inventorySkewBpsPerPct := 0
  inventorySkewMaxBps := 0
  oracleKeeper := 9

/-- As created at time 1000. -/
def examplePool : Market where
  ammConfig := exampleConfig
  poolState := Instructions.initialPoolState (exampleEnv 1000) 1000000000 1001 7 .bothToken true
    exampleArgs
  vault := ⟨1000000000, 1000000000⟩
  lpMintSupply := 999999900
  observationState := .default

def examplePush (bid ask : Int) (dynamicFeeRate : Nat) : Call :=
  ⟨exampleEnv 1050, .updatePoolOracle 9 bid ask (-8) dynamicFeeRate⟩

/-- `amount` of one token sold by someone who holds just that. -/
def exampleSwap (time : Nat) (side other : TokenSide) (amount : Nat) : Call :=
  ⟨exampleEnv time, .swapBaseInput side other amount 0 amount false⟩

theorem exampleConfig_reachable : exampleConfig.Reachable :=
  .create (show createAmmConfig adminId 0 2500 120000 40000 0 1000 = .ok exampleConfig by
    decide +kernel)

theorem examplePool_initial : Market.Initial examplePool :=
  .withPermission exampleConfig_reachable
    (show Instructions.initializeWithPermission exampleConfig (exampleEnv 1000) 7 .bothToken
      exampleArgs true ⟨⟨1000000000, 1000000000⟩, 0⟩ = .ok examplePool by decide +kernel)

theorem examplePool_reachable : examplePool.Reachable :=
  ⟨examplePool, [], examplePool_initial, rfl⟩

end NomadAmm

import NomadAmm.States.Market

/-! `instructions/initialize.rs` and `initialize_with_permission.rs`. The two differ in
who may call them, who becomes the creator, and the creator-fee mode; the accounts
they create are fresh, so the vaults and the LP mint start empty. -/

namespace NomadAmm.Instructions

open Lib.Checked Exec

/-- The arguments both instructions take. -/
structure InitializeArgs where
  initAmount0 : Nat
  initAmount1 : Nat
  openTime : Nat
  pythPriceFeedId : Nat
  minSpreadBps : Nat
  inventorySkewEnabled : Bool
  inventorySkewDeadzoneBps : Nat
  inventorySkewBpsPerPct : Nat
  inventorySkewMaxBps : Nat
  oracleKeeper : Pubkey
  deriving DecidableEq, Repr

/-- What the account that pays for a pool holds. -/
structure Funds where
  token : PerToken Nat
  lamports : Nat
  deriving DecidableEq, Repr

def lockLpAmount : Nat := 100

def validateArgs (c : AmmConfig) (args : InitializeArgs) : Exec Unit := do
  require (c.disableCreatePool = false) (.code .notApproved)
  require (args.pythPriceFeedId ≠ 0) (.code .invalidPythFeedId)
  require (1 ≤ args.minSpreadBps ∧ args.minSpreadBps ≤ 1000) (.code .invalidMinSpreadBps)
  require (args.inventorySkewDeadzoneBps ≤ 5000 ∧ args.inventorySkewBpsPerPct ≤ 100 ∧
    args.inventorySkewMaxBps ≤ 1000) (.code .invalidInventorySkewParam)

/-- Trading opens after the current second at the earliest. -/
def adjustOpenTime (env : Env) (openTime : Nat) : Exec Nat :=
  if openTime ≤ env.clock.unixTimestampU64 then unwrap (checkedAdd 64 env.clock.unixTimestampU64 1)
  else pure openTime

/-- `PoolState::initialize` on the zeroed account. -/
def initialPoolState (env : Env) (lpSupply openTime : Nat) (poolCreator : Pubkey)
    (creatorFeeOn : CreatorFeeOn) (enableCreatorFee : Bool) (args : InitializeArgs) :
    PoolState where
  poolCreator
  status := 0
  mint0Decimals := (env.mint .token0).decimals
  mint1Decimals := (env.mint .token1).decimals
  lpSupply
  protocolFees := ⟨0, 0⟩
  fundFees := ⟨0, 0⟩
  openTime
  recentEpoch := env.clock.epoch
  creatorFeeOn := creatorFeeOn.toU8
  enableCreatorFee
  creatorFees := ⟨0, 0⟩
  pythPriceFeedId := args.pythPriceFeedId
  minSpreadBps := args.minSpreadBps
  inventorySkewEnabled := if args.inventorySkewEnabled then 1 else 0
  inventorySkewDeadzoneBps := args.inventorySkewDeadzoneBps
  inventorySkewBpsPerPct := args.inventorySkewBpsPerPct
  inventorySkewMaxBps := args.inventorySkewMaxBps
  oracleKeeper := args.oracleKeeper
  effectiveBidMantissa := 0
  effectiveAskMantissa := 0
  priceExponent := 0
  dynamicFeeRate := 0
  lastOracleUpdateSlot := 0
  lastOracleUpdateUnix := 0

/-- The body the two instructions share. -/
def initializePool (c : AmmConfig) (env : Env) (poolCreator : Pubkey) (creatorFeeOn : CreatorFeeOn)
    (enableCreatorFee : Bool) (args : InitializeArgs) (payer : Funds) : Exec Market := do
  validateArgs c args
  let openTime ← adjustOpenTime env args.openTime
  let vault0 ← transferFromUserToPoolVault (env.mint .token0) env.clock.epoch payer.token.token0 0
    args.initAmount0
  let vault1 ← transferFromUserToPoolVault (env.mint .token1) env.clock.epoch payer.token.token1 0
    args.initAmount1
  CurveCalculator.validateSupply vault0 vault1
  let product ← unwrap (checkedMul 128 vault0 vault1)
  let liquidity ← unwrap (tryFrom 64 (Nat.sqrt product))
  let minted ← okOr .initLpAmountTooLess (checkedSub liquidity lockLpAmount)
  let lpMintSupply ← tokenMintTo 0 minted
  require (c.createPoolFee = 0 ∨ c.createPoolFee ≤ payer.lamports) .system
  pure { ammConfig := c
         poolState := initialPoolState env liquidity openTime poolCreator creatorFeeOn
          enableCreatorFee args
         vault := ⟨vault0, vault1⟩
         lpMintSupply
         observationState := .default }

/-- `initialize`, open to anyone. -/
def initializePermissionless (c : AmmConfig) (env : Env) (creator : Pubkey) (args : InitializeArgs)
    (payer : Funds) : Exec Market :=
  initializePool c env creator .bothToken false args payer

/-- `permission` is whether the payer's permission account exists. -/
def initializeWithPermission (c : AmmConfig) (env : Env) (creator : Pubkey)
    (creatorFeeOn : CreatorFeeOn) (args : InitializeArgs) (permission : Bool) (payer : Funds) :
    Exec Market := do
  require (permission = true) (.anchor .accountNotInitialized)
  initializePool c env creator creatorFeeOn true args payer

end NomadAmm.Instructions

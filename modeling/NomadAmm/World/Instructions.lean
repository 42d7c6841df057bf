import NomadAmm.Instructions.Admin
import NomadAmm.Instructions.Liquidity
import NomadAmm.Instructions.Swap
import NomadAmm.Program
import NomadAmm.World.Contexts

/-! The instructions of `lib.rs` on the accounts they are given. What a handler computes
it computes as it does for one pool; what it moves are the tokens of named accounts. -/

namespace NomadAmm

open Lib.Checked Exec Run Instructions

/-- The event of a call with the pool it reports. -/
structure Emitted where
  poolId : Pubkey
  event : Event
  deriving DecidableEq, Repr

namespace Instructions

/-- Both amounts of a number of LP tokens of a pool. -/
def shareAmounts (s : PoolState) (total : PerToken Nat) (lpTokenAmount : Nat)
    (roundDirection : RoundDirection) : Exec TradingTokenResult := do
  let results ← okOr .zeroTradingTokens (CurveCalculator.lpTokensToTradingTokens lpTokenAmount
    s.lpSupply total.token0 total.token1 roundDirection)
  require (results.token0Amount ≠ 0 ∧ results.token1Amount ≠ 0) (.code .zeroTradingTokens)
  pure results

/-- `deposit` up to its first transfer: what to transfer, and the event. -/
def quoteDeposit (s : PoolState) (vault : PerToken Nat) (env : Env)
    (lpTokenAmount maximumToken0Amount maximumToken1Amount : Nat) :
    Exec (PerToken Nat × LpChangeEvent) := do
  require (0 < lpTokenAmount) (.anchor .requireGtViolated)
  require (s.getStatusByBit .deposit = true) (.code .notApproved)
  let total ← s.vaultAmountWithoutFee vault.token0 vault.token1
  let results ← shareAmounts s total lpTokenAmount .ceiling
  let token0Amount ← unwrap (tryFrom 64 results.token0Amount)
  let (transferToken0Amount, transferToken0Fee) ←
    grossTransfer (env.mint .token0) env.clock.epoch token0Amount
  let token1Amount ← unwrap (tryFrom 64 results.token1Amount)
  let (transferToken1Amount, transferToken1Fee) ←
    grossTransfer (env.mint .token1) env.clock.epoch token1Amount
  require (transferToken0Amount ≤ maximumToken0Amount ∧ transferToken1Amount ≤ maximumToken1Amount)
    (.code .exceededSlippage)
  pure (⟨transferToken0Amount, transferToken1Amount⟩, ⟨s.lpSupply, total.token0, total.token1,
    token0Amount, token1Amount, transferToken0Fee, transferToken1Fee, 0⟩)

/-- `withdraw` up to the burning: what to pay out, and the event. -/
def quoteWithdraw (s : PoolState) (vault : PerToken Nat) (env : Env)
    (lpTokenAmount minimumToken0Amount minimumToken1Amount ownerLpToken : Nat) :
    Exec (PerToken Nat × LpChangeEvent) := do
  require (0 < lpTokenAmount) (.anchor .requireGtViolated)
  require (lpTokenAmount ≤ ownerLpToken) (.anchor .requireGteViolated)
  require (s.getStatusByBit .withdraw = true) (.code .notApproved)
  let total ← s.vaultAmountWithoutFee vault.token0 vault.token1
  let results ← shareAmounts s total lpTokenAmount .floor
  let share0 ← unwrap (tryFrom 64 results.token0Amount)
  let token0Amount := min total.token0 share0
  let (receiveToken0Amount, token0TransferFee) ←
    netTransfer (env.mint .token0) env.clock.epoch token0Amount
  let share1 ← unwrap (tryFrom 64 results.token1Amount)
  let token1Amount := min total.token1 share1
  let (receiveToken1Amount, token1TransferFee) ←
    netTransfer (env.mint .token1) env.clock.epoch token1Amount
  require (minimumToken0Amount ≤ receiveToken0Amount ∧ minimumToken1Amount ≤ receiveToken1Amount)
    (.code .exceededSlippage)
  pure (⟨token0Amount, token1Amount⟩, ⟨s.lpSupply, total.token0, total.token1,
    receiveToken0Amount, receiveToken1Amount, token0TransferFee, token1TransferFee, 1⟩)

variable {m : Market} {env : Env}

/-- The handler of one pool is its quote and the transfers. -/
theorem deposit_eq (lpTokenAmount maximum0 maximum1 : Nat) (ownerAmount : PerToken Nat) :
    deposit m env lpTokenAmount maximum0 maximum1 ownerAmount = (do
      let (amount, event) ← quoteDeposit m.poolState m.vault env lpTokenAmount maximum0 maximum1
      let vault0 ← transferFromUserToPoolVault (env.mint .token0) env.clock.epoch
        ownerAmount.token0 m.vault.token0 amount.token0
      let vault1 ← transferFromUserToPoolVault (env.mint .token1) env.clock.epoch
        ownerAmount.token1 m.vault.token1 amount.token1
      let lpSupply ← unwrap (checkedAdd 64 m.poolState.lpSupply lpTokenAmount)
      let lpMintSupply ← tokenMintTo m.lpMintSupply lpTokenAmount
      pure ({ m with
        poolState := { m.poolState with lpSupply, recentEpoch := env.clock.epoch }
        vault := ⟨vault0, vault1⟩
        lpMintSupply }, event)) := by
  simp only [deposit, quoteDeposit, bind_assoc, pure_bind]
  rfl

theorem withdraw_eq (lpTokenAmount minimum0 minimum1 ownerLpToken : Nat)
    (toVault : PerToken Bool) :
    withdraw m env lpTokenAmount minimum0 minimum1 ownerLpToken toVault = (do
      let (amount, event) ←
        quoteWithdraw m.poolState m.vault env lpTokenAmount minimum0 minimum1 ownerLpToken
      let lpSupply ← unwrap (checkedSub m.poolState.lpSupply lpTokenAmount)
      let lpMintSupply ← tokenBurn m.lpMintSupply ownerLpToken lpTokenAmount
      let vault0 ← transferFromPoolVaultToUser m.vault.token0 amount.token0 toVault.token0
      let vault1 ← transferFromPoolVaultToUser m.vault.token1 amount.token1 toVault.token1
      pure ({ m with
        poolState := { m.poolState with lpSupply, recentEpoch := env.clock.epoch }
        vault := ⟨vault0, vault1⟩
        lpMintSupply }, event)) := by
  simp only [withdraw, quoteWithdraw, bind_assoc, pure_bind]
  rfl

end Instructions

namespace World

variable {p : Addresses}

/-! ## Configs and permissions -/

def createAmmConfig (w : World) (a : CreateAmmConfig p) (index tradeFeeRate protocolFeeRate
    fundFeeRate createPoolFee creatorFeeRate : Nat) : Run World := do
  check (a.ammConfig = p.ammConfig index) .constraintSeeds
  let c ← handler (NomadAmm.createAmmConfig a.owner.key index tradeFeeRate protocolFeeRate
    fundFeeRate createPoolFee creatorFeeRate)
  w.create a.ammConfig (.ammConfig c)

def updateAmmConfig (w : World) (a : UpdateAmmConfig p) (param value : Nat)
    (remaining : Option Pubkey) : Run World := do
  let c ← w.ammConfig a.ammConfig
  let c' ← handler (NomadAmm.updateAmmConfig a.owner.key c param value remaining)
  pure (w.put a.ammConfig (.ammConfig c'))

def createPermissionPda (w : World) (a : PermissionPda p) : Run World := do
  handler (require (a.owner.key = adminId) (.code .invalidOwner))
  check (a.permission = p.permission a.permissionAuthority) .constraintSeeds
  w.create a.permission (.permission a.permissionAuthority)

def closePermissionPda (w : World) (a : PermissionPda p) : Run World := do
  let _ ← w.permission a.permission
  handler (require (a.owner.key = adminId) (.code .invalidOwner))
  check (a.permission = p.permission a.permissionAuthority) .constraintSeeds
  pure (w.remove a.permission)

/-! ## Creating a pool -/

/-- The fee of the config, from the payer's lamports into the receiver's wrapped SOL. -/
def chargeCreatePoolFee (w : World) (payer : Pubkey) (createPoolFee : Nat) : Run World :=
  if createPoolFee ≠ 0 then do
    let w ← w.moveLamports .system payer createPoolFeeReceiver createPoolFee
    w.syncNative createPoolFeeReceiver
  else pure w

/-- The keys a pool is created with. -/
def Initialize.keys (a : Initialize p) : PoolKeys where
  ammConfig := a.ammConfig
  vault := a.tokenVault
  lpMint := a.lpMint
  tokenMint := a.tokenMint
  observationKey := a.observationState

/-- The account constraints, and the accounts that are created before the handler runs. -/
def initializeAccounts (w : World) (a : Initialize p) : Run World := do
  let payerToken0 ← w.token a.payerToken.token0
  let payerToken1 ← w.token a.payerToken.token1
  let _ ← w.token a.createPoolFee
  check (a.tokenMint.token0 < a.tokenMint.token1) .constraintRaw
  check (a.lpMint = p.lpMint a.poolState) .constraintSeeds
  let w ← w.create a.lpMint (.mint ⟨Mint.plain 9, 0, some p.authority, none⟩)
  check (payerToken0.mint = a.tokenMint.token0 ∧ payerToken1.mint = a.tokenMint.token1)
    .constraintTokenMint
  check (payerToken0.owner = a.payer.key ∧ payerToken1.owner = a.payer.key) .constraintTokenOwner
  check (a.payerLpToken = p.associatedToken a.payer.key .token a.lpMint) .constraintAssociated
  let w ← w.createTokenAccount a.payer.key a.payerLpToken a.lpMint
  check (a.tokenVault.token0 = p.vault a.poolState a.tokenMint.token0 ∧
    a.tokenVault.token1 = p.vault a.poolState a.tokenMint.token1) .constraintSeeds
  check (a.createPoolFee = createPoolFeeReceiver) .constraintAddress
  check (a.observationState = p.observation a.poolState) .constraintSeeds
  w.create a.observationState (.observationState .default)

/-- `create_pool`: the pool account is new, at its derived address or at one that signed. -/
def createPool (w : World) (a : Initialize p) : Run Unit := do
  check ((w.account a.poolState).isNone = true) .notApproved
  check (a.poolState = p.pool a.ammConfig a.tokenMint.token0 a.tokenMint.token1 ∨
    a.poolStateSigned = true) .requireEqViolated

/-- The body the two instructions share. -/
def initializePool (w : World) (clock : Clock) (a : Initialize p) (poolCreator : Pubkey)
    (creatorFeeOn : CreatorFeeOn) (enableCreatorFee : Bool) (args : InitializeArgs) :
    Run World := do
  let c ← w.ammConfig a.ammConfig
  let mint0 ← w.mint a.tokenMint.token0
  let mint1 ← w.mint a.tokenMint.token1
  let env : Env := ⟨clock, ⟨mint0.mint, mint1.mint⟩⟩
  let w ← w.initializeAccounts a
  handler (validateArgs c args)
  let openTime ← handler (adjustOpenTime env args.openTime)
  let w ← w.createTokenAccount p.authority a.tokenVault.token0 a.tokenMint.token0
  let w ← w.createTokenAccount p.authority a.tokenVault.token1 a.tokenMint.token1
  w.createPool a
  let w ← w.transferFromUserToPoolVault clock.epoch a.payer.key a.payerToken.token0
    a.tokenVault.token0 a.tokenMint.token0 args.initAmount0
  let w ← w.transferFromUserToPoolVault clock.epoch a.payer.key a.payerToken.token1
    a.tokenVault.token1 a.tokenMint.token1 args.initAmount1
  let vault0 ← w.token a.tokenVault.token0
  let vault1 ← w.token a.tokenVault.token1
  handler (CurveCalculator.validateSupply vault0.amount vault1.amount)
  let product ← handler (unwrap (checkedMul 128 vault0.amount vault1.amount))
  let liquidity ← handler (unwrap (tryFrom 64 (Nat.sqrt product)))
  let minted ← handler (okOr .initLpAmountTooLess (checkedSub liquidity lockLpAmount))
  let w ← w.tokenMintTo p.authority a.lpMint a.payerLpToken minted
  let w ← w.chargeCreatePoolFee a.payer.key c.createPoolFee
  pure (w.put a.poolState (.poolState (Initialize.keys a) (initialPoolState env liquidity openTime
    poolCreator creatorFeeOn enableCreatorFee args)))

def initializePermissionless (w : World) (clock : Clock) (a : Initialize p)
    (args : InitializeArgs) : Run World :=
  w.initializePool clock a a.payer.key .bothToken false args

def initializeWithPermission (w : World) (clock : Clock) (a : Initialize p)
    (creator permission : Pubkey) (creatorFeeOn : CreatorFeeOn) (args : InitializeArgs) :
    Run World := do
  let _ ← w.permission permission
  check (permission = p.permission a.payer.key) .constraintSeeds
  w.initializePool clock a creator creatorFeeOn true args

/-! ## Administration of a pool -/

def updatePoolStatus (w : World) (clock : Clock) (a : PoolAdmin p) (status : Nat) : Run World := do
  let (keys, s) ← w.poolState a.poolState
  check (a.authority.key = adminId) .constraintAddress
  handler (require (status ≤ 255) (.anchor .requireGteViolated))
  pure (w.put a.poolState (.poolState keys { s with status, recentEpoch := clock.epoch }))

def updatePoolOracle (w : World) (clock : Clock) (a : UpdatePoolOracle p)
    (effectiveBidMantissa effectiveAskMantissa priceExponent : Int) (dynamicFeeRate : Nat) :
    Run (World × OracleUpdated) := do
  let (keys, s) ← w.poolState a.poolState
  handler (require (s.oracleKeeper = a.oracleKeeper.key) (.code .invalidOracleKeeper))
  handler (require (0 < effectiveBidMantissa) (.code .invalidEffectiveSpread))
  handler (require (effectiveBidMantissa ≤ effectiveAskMantissa) (.code .bidNotLessThanAsk))
  handler (require (dynamicFeeRate < feeRateDenominatorValue) (.code .invalidDynamicFeeRate))
  pure (w.put a.poolState (.poolState keys { s with
      effectiveBidMantissa, effectiveAskMantissa, priceExponent, dynamicFeeRate
      lastOracleUpdateSlot := clock.slot
      lastOracleUpdateUnix := clock.unixTimestamp }),
    ⟨effectiveBidMantissa, effectiveAskMantissa, priceExponent, dynamicFeeRate, clock.slot,
      clock.unixTimestamp⟩)

def setOracleKeeper (w : World) (a : PoolAdmin p) (newKeeper : Pubkey) : Run World := do
  let (keys, s) ← w.poolState a.poolState
  check (a.authority.key = adminId) .constraintAddress
  pure (w.put a.poolState (.poolState keys { s with oracleKeeper := newKeeper }))

/-! ## Collecting fees -/

/-- `amount` out of each vault, to one account each. -/
def payOut (p : Addresses) (w : World) (clock : Clock) (tokenVault mint recipient : PerToken Pubkey)
    (amount : PerToken Nat) : Run World := do
  let w ← w.transferFromPoolVaultToUser clock.epoch p.authority tokenVault.token0
    recipient.token0 mint.token0 amount.token0
  w.transferFromPoolVaultToUser clock.epoch p.authority tokenVault.token1
    recipient.token1 mint.token1 amount.token1

/-- `collect_protocol_fee` and `collect_fund_fee`, which differ in the owner and in the
counters they read and write. -/
def collectFee (w : World) (clock : Clock) (a : CollectFee p) (feeOwner : AmmConfig → Pubkey)
    (fees : PoolState → PerToken Nat) (write : PoolState → PerToken Nat → PoolState)
    (requested : PerToken Nat) : Run World := do
  let (keys, s) ← w.poolState a.poolState
  let c ← w.ammConfig a.ammConfig
  let _ ← w.vaults keys a.tokenVault a.vaultMint
  let _ ← w.token a.recipientToken.token0
  let _ ← w.token a.recipientToken.token1
  handler (require (a.owner.key = feeOwner c ∨ a.owner.key = adminId) (.code .invalidOwner))
  check (a.ammConfig = keys.ammConfig) .constraintAddress
  let amount := collectable (fees s) requested
  let lowered ← handler (lowerFees (fees s) amount)
  let w := w.put a.poolState
    (.poolState keys { write s lowered with recentEpoch := clock.epoch })
  w.payOut p clock a.tokenVault a.vaultMint a.recipientToken amount

def collectProtocolFee (w : World) (clock : Clock) (a : CollectFee p) (requested : PerToken Nat) :
    Run World :=
  w.collectFee clock a AmmConfig.protocolOwner PoolState.protocolFees
    (fun s fees => { s with protocolFees := fees }) requested

def collectFundFee (w : World) (clock : Clock) (a : CollectFee p) (requested : PerToken Nat) :
    Run World :=
  w.collectFee clock a AmmConfig.fundOwner PoolState.fundFees
    (fun s fees => { s with fundFees := fees }) requested

def collectCreatorFee (w : World) (clock : Clock) (a : CollectCreatorFee p) : Run World := do
  let (keys, s) ← w.poolState a.poolState
  let _ ← w.ammConfig a.ammConfig
  let (_, mint) ← w.vaults keys a.tokenVault a.vaultMint
  check (a.creator.key = s.poolCreator) .constraintAddress
  check (a.ammConfig = keys.ammConfig) .constraintAddress
  let w ← w.initAssociated p a.creator.key mint.token0 a.vaultMint.token0 a.creatorToken.token0
  let w ← w.initAssociated p a.creator.key mint.token1 a.vaultMint.token1 a.creatorToken.token1
  handler (require (s.creatorFees.token0 ≠ 0 ∨ s.creatorFees.token1 ≠ 0) (.code .noFeeCollect))
  let w ← w.payOut p clock a.tokenVault a.vaultMint a.creatorToken s.creatorFees
  pure (w.put a.poolState
    (.poolState keys { s with creatorFees := ⟨0, 0⟩, recentEpoch := clock.epoch }))

/-! ## Liquidity -/

def deposit (w : World) (clock : Clock) (a : ChangeLiquidity p)
    (lpTokenAmount maximumToken0Amount maximumToken1Amount : Nat) :
    Run (World × LpChangeEvent) := do
  let (keys, s) ← w.poolState a.poolState
  let ownerLpToken ← w.token a.ownerLpToken
  let token0Account ← w.token a.tokenAccount.token0
  let token1Account ← w.token a.tokenAccount.token1
  let (vault, mint) ← w.vaults keys a.tokenVault a.vaultMint
  let _ ← w.mint a.lpMint
  check (ownerLpToken.owner = a.owner.key ∧ token0Account.owner = a.owner.key ∧
    token1Account.owner = a.owner.key) .constraintTokenOwner
  check (token0Account.mint = vault.token0.mint ∧ token1Account.mint = vault.token1.mint)
    .constraintTokenMint
  check (a.lpMint = keys.lpMint) .incorrectLpMint
  let (amount, event) ← handler (quoteDeposit s ⟨vault.token0.amount, vault.token1.amount⟩
    ⟨clock, mint⟩ lpTokenAmount maximumToken0Amount maximumToken1Amount)
  let w ← w.transferFromUserToPoolVault clock.epoch a.owner.key a.tokenAccount.token0
    a.tokenVault.token0 a.vaultMint.token0 amount.token0
  let w ← w.transferFromUserToPoolVault clock.epoch a.owner.key a.tokenAccount.token1
    a.tokenVault.token1 a.vaultMint.token1 amount.token1
  let lpSupply ← handler (unwrap (checkedAdd 64 s.lpSupply lpTokenAmount))
  let w ← w.tokenMintTo p.authority a.lpMint a.ownerLpToken lpTokenAmount
  pure (w.put a.poolState (.poolState keys { s with lpSupply, recentEpoch := clock.epoch }), event)

def withdraw (w : World) (clock : Clock) (a : ChangeLiquidity p)
    (lpTokenAmount minimumToken0Amount minimumToken1Amount : Nat) :
    Run (World × LpChangeEvent) := do
  let (keys, s) ← w.poolState a.poolState
  let ownerLpToken ← w.token a.ownerLpToken
  let token0Account ← w.token a.tokenAccount.token0
  let token1Account ← w.token a.tokenAccount.token1
  let (vault, mint) ← w.vaults keys a.tokenVault a.vaultMint
  let _ ← w.mint a.lpMint
  check (ownerLpToken.owner = a.owner.key) .constraintTokenOwner
  check (token0Account.mint = vault.token0.mint ∧ token1Account.mint = vault.token1.mint)
    .constraintTokenMint
  check (a.lpMint = keys.lpMint) .incorrectLpMint
  let (amount, event) ← handler (quoteWithdraw s ⟨vault.token0.amount, vault.token1.amount⟩
    ⟨clock, mint⟩ lpTokenAmount minimumToken0Amount minimumToken1Amount ownerLpToken.amount)
  let lpSupply ← handler (unwrap (checkedSub s.lpSupply lpTokenAmount))
  let w ← w.tokenBurn a.owner.key a.lpMint a.ownerLpToken lpTokenAmount
  let w ← w.payOut p clock a.tokenVault a.vaultMint a.tokenAccount amount
  pure (w.put a.poolState (.poolState keys { s with lpSupply, recentEpoch := clock.epoch }), event)

/-! ## Swaps -/

/-- What the constraints of `Swap` leave of its accounts: the pool with the vaults named
(the LP mint is not among the accounts of a swap), their sides and mints. -/
structure SwapAccounts where
  keys : PoolKeys
  market : Market
  env : Env
  input : TokenSide
  output : TokenSide

def swapAccounts (w : World) (clock : Clock) (a : Swap p) : Run SwapAccounts := do
  let ammConfig ← w.ammConfig a.ammConfig
  let (keys, poolState) ← w.poolState a.poolState
  let _ ← w.token a.inputTokenAccount
  let _ ← w.token a.outputTokenAccount
  let inputVault ← w.token a.inputVault
  let outputVault ← w.token a.outputVault
  let inputTokenMint ← w.mint a.inputTokenMint
  let outputTokenMint ← w.mint a.outputTokenMint
  let observationState ← w.observationState a.observationState
  check (a.ammConfig = keys.ammConfig) .constraintAddress
  let input ← picked (keys.sideOf a.inputVault)
  let output ← picked (keys.sideOf a.outputVault)
  check (a.inputTokenMint = inputVault.mint ∧ a.outputTokenMint = outputVault.mint)
    .constraintAddress
  check (a.observationState = keys.observationKey) .constraintAddress
  let vault := ((⟨0, 0⟩ : PerToken Nat).set input inputVault.amount).set output outputVault.amount
  let mints := ((⟨inputTokenMint.mint, inputTokenMint.mint⟩ : PerToken Mint).set output
    outputTokenMint.mint)
  pure ⟨keys, { ammConfig, poolState, vault, lpMintSupply := 0, observationState }, ⟨clock, mints⟩,
    input, output⟩

/-- The writes of both handlers. -/
def settleSwap (w : World) (a : Swap p) (s : SwapAccounts) (q : SwapQuote) :
    Run (World × SwapReceipt) := do
  let protocolFee ← handler (unwrap (tryFrom 64 q.result.protocolFee))
  let fundFee ← handler (unwrap (tryFrom 64 q.result.fundFee))
  let creatorFee ← handler (unwrap (tryFrom 64 q.result.creatorFee))
  let poolState ← handler (s.market.poolState.updateFees protocolFee fundFee creatorFee
    q.pricing.params.tradeDirection)
  let event ← handler (swapEvent s.market q s.input s.output)
  let w ← w.transferFromUserToPoolVault s.env.clock.epoch a.payer.key a.inputTokenAccount
    a.inputVault a.inputTokenMint q.inputTransferAmount
  let w ← w.transferFromPoolVaultToUser s.env.clock.epoch p.authority a.outputVault
    a.outputTokenAccount a.outputTokenMint q.outputTransferAmount
  let observationState ← handler (s.market.observationState.update s.env.clock.blockTimestamp
    q.pricing.params.token0PriceX64 q.pricing.params.token1PriceX64)
  let w := w.put a.observationState (.observationState observationState)
  pure (w.put a.poolState
    (.poolState s.keys { poolState with recentEpoch := s.env.clock.epoch }), ⟨q.result, event⟩)

def swapBaseInput (w : World) (clock : Clock) (a : Swap p) (amountIn minimumAmountOut : Nat) :
    Run (World × SwapReceipt) := do
  let s ← w.swapAccounts clock a
  let q ← handler (quoteBaseInput s.market s.env s.input s.output amountIn minimumAmountOut)
  w.settleSwap a s q

def swapBaseOutput (w : World) (clock : Clock) (a : Swap p) (maxAmountIn amountOutReceived : Nat) :
    Run (World × SwapReceipt) := do
  let s ← w.swapAccounts clock a
  let q ← handler (quoteBaseOutput s.market s.env s.input s.output maxAmountIn amountOutReceived)
  w.settleSwap a s q

end World

/-! ## The program -/

/-- A call of `lib.rs` with its accounts and arguments. -/
inductive Invocation (p : Addresses)
  | createAmmConfig (a : CreateAmmConfig p) (index tradeFeeRate protocolFeeRate fundFeeRate
      createPoolFee creatorFeeRate : Nat)
  | updateAmmConfig (a : UpdateAmmConfig p) (param value : Nat) (remaining : Option Pubkey)
  | createPermissionPda (a : PermissionPda p)
  | closePermissionPda (a : PermissionPda p)
  | initializePermissionless (a : Initialize p) (args : InitializeArgs)
  | initializeWithPermission (a : Initialize p) (creator permission : Pubkey)
      (creatorFeeOn : CreatorFeeOn) (args : InitializeArgs)
  | updatePoolStatus (a : PoolAdmin p) (status : Nat)
  | updatePoolOracle (a : UpdatePoolOracle p)
      (effectiveBidMantissa effectiveAskMantissa priceExponent : Int) (dynamicFeeRate : Nat)
  | setOracleKeeper (a : PoolAdmin p) (newKeeper : Pubkey)
  | collectProtocolFee (a : CollectFee p) (requested : PerToken Nat)
  | collectFundFee (a : CollectFee p) (requested : PerToken Nat)
  | collectCreatorFee (a : CollectCreatorFee p)
  | deposit (a : ChangeLiquidity p) (lpTokenAmount maximumToken0Amount maximumToken1Amount : Nat)
  | withdraw (a : ChangeLiquidity p) (lpTokenAmount minimumToken0Amount minimumToken1Amount : Nat)
  | swapBaseInput (a : Swap p) (amountIn minimumAmountOut : Nat)
  | swapBaseOutput (a : Swap p) (maxAmountIn amountOutReceived : Nat)

namespace World

variable {p : Addresses}

/-- A call that emits nothing. -/
def silent (r : Run World) : Run (World × Option Emitted) := do
  pure (← r, none)

/-- A call that emits one event of a pool. -/
def reporting {α : Type} (poolId : Pubkey) (event : α → Event) (r : Run (World × α)) :
    Run (World × Option Emitted) := do
  let (w, a) ← r
  pure (w, some ⟨poolId, event a⟩)

def step (w : World) (clock : Clock) : Invocation p → Run (World × Option Emitted)
  | .createAmmConfig a index tradeFeeRate protocolFeeRate fundFeeRate createPoolFee
      creatorFeeRate =>
    silent (w.createAmmConfig a index tradeFeeRate protocolFeeRate fundFeeRate createPoolFee
      creatorFeeRate)
  | .updateAmmConfig a param value remaining => silent (w.updateAmmConfig a param value remaining)
  | .createPermissionPda a => silent (w.createPermissionPda a)
  | .closePermissionPda a => silent (w.closePermissionPda a)
  | .initializePermissionless a args => silent (w.initializePermissionless clock a args)
  | .initializeWithPermission a creator permission creatorFeeOn args =>
    silent (w.initializeWithPermission clock a creator permission creatorFeeOn args)
  | .updatePoolStatus a status => silent (w.updatePoolStatus clock a status)
  | .updatePoolOracle a bid ask exponent dynamicFeeRate =>
    reporting a.poolState .oracle (w.updatePoolOracle clock a bid ask exponent dynamicFeeRate)
  | .setOracleKeeper a newKeeper => silent (w.setOracleKeeper a newKeeper)
  | .collectProtocolFee a requested => silent (w.collectProtocolFee clock a requested)
  | .collectFundFee a requested => silent (w.collectFundFee clock a requested)
  | .collectCreatorFee a => silent (w.collectCreatorFee clock a)
  | .deposit a lpTokenAmount maximum0 maximum1 =>
    reporting a.poolState .lpChange (w.deposit clock a lpTokenAmount maximum0 maximum1)
  | .withdraw a lpTokenAmount minimum0 minimum1 =>
    reporting a.poolState .lpChange (w.withdraw clock a lpTokenAmount minimum0 minimum1)
  | .swapBaseInput a amountIn minimumAmountOut =>
    reporting a.poolState .swap (w.swapBaseInput clock a amountIn minimumAmountOut)
  | .swapBaseOutput a maxAmountIn amountOut =>
    reporting a.poolState .swap (w.swapBaseOutput clock a maxAmountIn amountOut)

end World

end NomadAmm

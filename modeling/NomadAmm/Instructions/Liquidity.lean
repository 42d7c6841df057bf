import NomadAmm.States.Market

/-! `instructions/deposit.rs` and `withdraw.rs`: LP tokens against both reserves. -/

namespace NomadAmm.Instructions

open Lib.Checked Exec

/-- The amount to transfer so that `amount` arrives, and the fee in it. -/
def grossTransfer (mint : Mint) (epoch amount : Nat) : Exec (Nat × Nat) := do
  let transferFee ← getTransferInverseFee mint epoch amount
  let transferAmount ← unwrap (checkedAdd 64 amount transferFee)
  pure (transferAmount, transferFee)

/-- What arrives of `amount`, and the fee withheld. -/
def netTransfer (mint : Mint) (epoch amount : Nat) : Exec (Nat × Nat) := do
  let transferFee ← getTransferFee mint epoch amount
  let receiveAmount ← unwrap (checkedSub amount transferFee)
  pure (receiveAmount, transferFee)

/-- Both amounts of a number of LP tokens, none of them zero. -/
def lpAmounts (m : Market) (total : PerToken Nat) (lpTokenAmount : Nat)
    (roundDirection : RoundDirection) : Exec TradingTokenResult := do
  let results ← okOr .zeroTradingTokens (CurveCalculator.lpTokensToTradingTokens lpTokenAmount
    m.poolState.lpSupply total.token0 total.token1 roundDirection)
  require (results.token0Amount ≠ 0 ∧ results.token1Amount ≠ 0) (.code .zeroTradingTokens)
  pure results

def deposit (m : Market) (env : Env) (lpTokenAmount maximumToken0Amount maximumToken1Amount : Nat)
    (ownerAmount : PerToken Nat) : Exec (Market × LpChangeEvent) := do
  require (0 < lpTokenAmount) (.anchor .requireGtViolated)
  require (m.poolState.getStatusByBit .deposit = true) (.code .notApproved)
  let total ← m.poolState.vaultAmountWithoutFee m.vault.token0 m.vault.token1
  let results ← lpAmounts m total lpTokenAmount .ceiling
  let token0Amount ← unwrap (tryFrom 64 results.token0Amount)
  let (transferToken0Amount, transferToken0Fee) ←
    grossTransfer (env.mint .token0) env.clock.epoch token0Amount
  let token1Amount ← unwrap (tryFrom 64 results.token1Amount)
  let (transferToken1Amount, transferToken1Fee) ←
    grossTransfer (env.mint .token1) env.clock.epoch token1Amount
  require (transferToken0Amount ≤ maximumToken0Amount ∧ transferToken1Amount ≤ maximumToken1Amount)
    (.code .exceededSlippage)
  let vault0 ← transferFromUserToPoolVault (env.mint .token0) env.clock.epoch ownerAmount.token0
    m.vault.token0 transferToken0Amount
  let vault1 ← transferFromUserToPoolVault (env.mint .token1) env.clock.epoch ownerAmount.token1
    m.vault.token1 transferToken1Amount
  let lpSupply ← unwrap (checkedAdd 64 m.poolState.lpSupply lpTokenAmount)
  let lpMintSupply ← tokenMintTo m.lpMintSupply lpTokenAmount
  pure ({ m with
    poolState := { m.poolState with lpSupply, recentEpoch := env.clock.epoch }
    vault := ⟨vault0, vault1⟩
    lpMintSupply },
    ⟨m.poolState.lpSupply, total.token0, total.token1, token0Amount, token1Amount,
      transferToken0Fee, transferToken1Fee, 0⟩)

def withdraw (m : Market) (env : Env) (lpTokenAmount minimumToken0Amount minimumToken1Amount : Nat)
    (ownerLpToken : Nat) (toVault : PerToken Bool) : Exec (Market × LpChangeEvent) := do
  require (0 < lpTokenAmount) (.anchor .requireGtViolated)
  require (lpTokenAmount ≤ ownerLpToken) (.anchor .requireGteViolated)
  require (m.poolState.getStatusByBit .withdraw = true) (.code .notApproved)
  let total ← m.poolState.vaultAmountWithoutFee m.vault.token0 m.vault.token1
  let results ← lpAmounts m total lpTokenAmount .floor
  let share0 ← unwrap (tryFrom 64 results.token0Amount)
  let token0Amount := min total.token0 share0
  let (receiveToken0Amount, token0TransferFee) ←
    netTransfer (env.mint .token0) env.clock.epoch token0Amount
  let share1 ← unwrap (tryFrom 64 results.token1Amount)
  let token1Amount := min total.token1 share1
  let (receiveToken1Amount, token1TransferFee) ←
    netTransfer (env.mint .token1) env.clock.epoch token1Amount
  require (minimumToken0Amount ≤ receiveToken0Amount ∧ minimumToken1Amount ≤ receiveToken1Amount)
    (.code .exceededSlippage)
  let lpSupply ← unwrap (checkedSub m.poolState.lpSupply lpTokenAmount)
  let lpMintSupply ← tokenBurn m.lpMintSupply ownerLpToken lpTokenAmount
  let vault0 ← transferFromPoolVaultToUser m.vault.token0 token0Amount toVault.token0
  let vault1 ← transferFromPoolVaultToUser m.vault.token1 token1Amount toVault.token1
  pure ({ m with
    poolState := { m.poolState with lpSupply, recentEpoch := env.clock.epoch }
    vault := ⟨vault0, vault1⟩
    lpMintSupply },
    ⟨m.poolState.lpSupply, total.token0, total.token1, receiveToken0Amount, receiveToken1Amount,
      token0TransferFee, token1TransferFee, 1⟩)

end NomadAmm.Instructions

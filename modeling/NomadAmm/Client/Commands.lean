import NomadAmm.Client.TransferFee
import NomadAmm.Instructions.Liquidity

/-! `client/src/main.rs`: the `Deposit` and `Withdraw` commands, from the accounts they
fetch together to the bounds they send. `amount_with_slippage` is floating point and stays
a parameter. -/

namespace NomadAmm.Client

open Lib.Checked Exec

/-- `unwrap` on a result of the program. -/
def unwrapOk {α : Type} : Exec α → Exec α
  | .ok a => .ok a
  | .error _ => .error .panic

/-- The amounts of a command and the bounds it sends with them. -/
structure LpCommand where
  results : TradingTokenResult
  amount0Bound : Nat
  amount1Bound : Nat
  deriving DecidableEq, Repr

/-- A number of LP tokens in trading tokens, on the fetched accounts. -/
def lpTokensToTradingTokens (m : Market) (lpTokenAmount : Nat) (roundDirection : RoundDirection) :
    Exec TradingTokenResult := do
  let total ← unwrapOk (m.poolState.vaultAmountWithoutFee m.vault.token0 m.vault.token1)
  unwrap (CurveCalculator.lpTokensToTradingTokens lpTokenAmount m.poolState.lpSupply total.token0
    total.token1 roundDirection)

/-- What the commands print. Both round up. -/
def depositAmounts (m : Market) (lpTokenAmount : Nat) : Exec TradingTokenResult :=
  lpTokensToTradingTokens m lpTokenAmount .ceiling

def withdrawAmounts (m : Market) (lpTokenAmount : Nat) : Exec TradingTokenResult :=
  lpTokensToTradingTokens m lpTokenAmount .ceiling

def deposit (amountWithSlippage : Nat → Bool → Nat) (m : Market) (env : Env)
    (lpTokenAmount : Nat) : Exec LpCommand := do
  let results ← depositAmounts m lpTokenAmount
  let amount0WithSlippage := amountWithSlippage (results.token0Amount % 2 ^ 64) true
  let amount1WithSlippage := amountWithSlippage (results.token1Amount % 2 ^ 64) true
  let (transferFee0, transferFee1) ←
    getPoolMintsInverseFee env .token0 .token1 amount0WithSlippage amount1WithSlippage
  let amount0Max ← unwrap (checkedAdd 64 amount0WithSlippage transferFee0.transferFee)
  let amount1Max ← unwrap (checkedAdd 64 amount1WithSlippage transferFee1.transferFee)
  pure ⟨results, amount0Max, amount1Max⟩

def withdraw (amountWithSlippage : Nat → Bool → Nat) (m : Market) (env : Env)
    (lpTokenAmount : Nat) : Exec LpCommand := do
  let results ← withdrawAmounts m lpTokenAmount
  let amount0WithSlippage := amountWithSlippage (results.token0Amount % 2 ^ 64) false
  let amount1WithSlippage := amountWithSlippage (results.token1Amount % 2 ^ 64) false
  let (transferFee0, transferFee1) ←
    getPoolMintsTransferFee env .token0 .token1 amount0WithSlippage amount1WithSlippage
  let amount0Min ← unwrap (checkedSub amount0WithSlippage transferFee0.transferFee)
  let amount1Min ← unwrap (checkedSub amount1WithSlippage transferFee1.transferFee)
  pure ⟨results, amount0Min, amount1Min⟩

end NomadAmm.Client

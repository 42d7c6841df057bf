import NomadAmm.States.Market

/-! `client/src/instructions/utils.rs`: the transfer fees of a pool's two mints, as the
command line estimates them. The accounts and the epoch it fetches are an `Env`; an
account that cannot be fetched or decoded ends the program and is left out. -/

namespace NomadAmm.Client

open Exec

/-- The extension found in a mint's account. A mint of the token program has no room for
one. -/
def unpackMint (mint : Mint) : Option TransferFeeConfig :=
  match mint.owner with
  | .token => none
  | .token2022 => mint.transferFeeConfig

/-- Calculate the fee for output amount. -/
def getTransferInverseFee (accountState : Option TransferFeeConfig) (epoch postFeeAmount : Nat) :
    Exec Nat :=
  match accountState with
  | some config =>
    if config.transferFeeBasisPoints epoch = maxFeeBasisPoints then pure (config.maximumFee epoch)
    else unwrap (config.calculateInverseEpochFee epoch postFeeAmount)
  | none => pure 0

/-- Calculate the fee for input amount. -/
def getTransferFee (accountState : Option TransferFeeConfig) (epoch preFeeAmount : Nat) :
    Exec Nat :=
  match accountState with
  | some config => unwrap (config.calculateEpochFee epoch preFeeAmount)
  | none => pure 0

structure TransferFeeInfo where
  mint : TokenSide
  owner : TokenProgram
  transferFee : Nat
  deriving DecidableEq, Repr

/-- Both functions below hand the amount to the fee first and the epoch second. -/
def getPoolMintsFee (fee : Option TransferFeeConfig → Nat → Nat → Exec Nat) (env : Env)
    (tokenMint0 tokenMint1 : TokenSide) (amount0 amount1 : Nat) :
    Exec (TransferFeeInfo × TransferFeeInfo) := do
  let epoch := env.clock.epoch
  let mint0Account := env.mint tokenMint0
  let mint1Account := env.mint tokenMint1
  let transferFee0 ← fee (unpackMint mint0Account) amount0 epoch
  let transferFee1 ← fee (unpackMint mint1Account) amount1 epoch
  pure (⟨tokenMint0, mint0Account.owner, transferFee0⟩,
    ⟨tokenMint1, mint1Account.owner, transferFee1⟩)

def getPoolMintsInverseFee (env : Env) (tokenMint0 tokenMint1 : TokenSide)
    (postFeeAmount0 postFeeAmount1 : Nat) : Exec (TransferFeeInfo × TransferFeeInfo) :=
  getPoolMintsFee getTransferInverseFee env tokenMint0 tokenMint1 postFeeAmount0 postFeeAmount1

def getPoolMintsTransferFee (env : Env) (tokenMint0 tokenMint1 : TokenSide)
    (preFeeAmount0 preFeeAmount1 : Nat) : Exec (TransferFeeInfo × TransferFeeInfo) :=
  getPoolMintsFee getTransferFee env tokenMint0 tokenMint1 preFeeAmount0 preFeeAmount1

variable {fee : Option TransferFeeConfig → Nat → Nat → Exec Nat} {env : Env}
  {side0 side1 : TokenSide} {amount0 amount1 fee0 fee1 : Nat}

/-- The two fees are those of the two mints, each on its own. -/
theorem getPoolMintsFee_eq_ok :
    getPoolMintsFee fee env side0 side1 amount0 amount1 =
        .ok (⟨side0, (env.mint side0).owner, fee0⟩, ⟨side1, (env.mint side1).owner, fee1⟩) ↔
      fee (unpackMint (env.mint side0)) amount0 env.clock.epoch = .ok fee0 ∧
        fee (unpackMint (env.mint side1)) amount1 env.clock.epoch = .ok fee1 := by
  simp only [getPoolMintsFee, bind_eq_ok, pure_eq_ok, Prod.mk.injEq, TransferFeeInfo.mk.injEq,
    true_and]
  constructor
  · intro h
    obtain ⟨_, h0, _, h1, rfl, rfl⟩ := h
    exact ⟨h0, h1⟩
  · intro h
    exact ⟨fee0, h.1, fee1, h.2, rfl, rfl⟩

end NomadAmm.Client

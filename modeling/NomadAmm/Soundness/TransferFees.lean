import NomadAmm.Program
import NomadAmm.Soundness.Ledger
import NomadAmm.Utils.TransferFee

/-! Transfer fees on both sides of a pool. The program asks the token library for the
inverse of a fee and checks the answer against the fee itself; with the library as
documented the check never fails, so an exact-out swap delivers what was asked for and
vaults are credited with what the curve says, whatever the mints withhold. -/

namespace NomadAmm.Soundness.TransferFees

open Lib.Checked Lib.Transition Exec Instructions
open Soundness.Settlement Soundness.Ledger

/-- A mint whose transfer fee, if it has one, is the documented one. -/
def Documented (mint : Mint) : Prop :=
  ∀ config, mint.transferFeeConfig = some config → config.AsDocumented

variable {mint : Mint} {epoch user vault vault' post fee maximum amount : Nat} {m m' : Market}
  {env : Env} {inputVault outputVault : TokenSide}

/-- The transfer of `amount` with `fee` on top, at most `maximum`, is what a vault went
through: the mint withholds exactly `fee`, and `amount` is credited. -/
structure PaysIn (mint : Mint) (epoch user maximum amount fee vault vault' : Nat) : Prop where
  bounded : amount + fee ≤ maximum
  paid : transferFromUserToPoolVault mint epoch user vault (amount + fee) = .ok vault'
  withheld : withheldFee mint epoch (amount + fee) = .ok fee
  credited : vault' = vault + amount

/-- The transfer of `amount` with `fee` on top is what a vault paid: the mint withholds
exactly `fee`, so `amount` arrives. -/
structure PaysOut (mint : Mint) (epoch amount fee vault vault' : Nat) (toVault : Bool) : Prop where
  paid : transferFromPoolVaultToUser vault (amount + fee) toVault = .ok vault'
  withheld : withheldFee mint epoch (amount + fee) = .ok fee

theorem withheldFee_ok (hmint : Documented mint) (h64 : amount < 2 ^ 64) :
    ∃ withheld, withheldFee mint epoch amount = .ok withheld := by
  unfold withheldFee
  cases mint.owner with
  | token => exact ⟨0, rfl⟩
  | token2022 =>
    cases hconfig : mint.transferFeeConfig with
    | none => exact ⟨0, rfl⟩
    | some config =>
      simp only [(hmint config hconfig).calculate epoch amount h64]
      exact ⟨_, rfl⟩

/-- What an inverse fee grosses up is withheld exactly. -/
theorem withheldFee_grossed (hmint : Documented mint)
    (hinv : getTransferInverseFee mint epoch post = .ok fee) (h64 : post + fee < 2 ^ 64) :
    withheldFee mint epoch (post + fee) = .ok fee := by
  obtain ⟨withheld, hwithheld⟩ := @withheldFee_ok mint epoch (post + fee) hmint h64
  obtain rfl := withheldFee_of_inverse hinv hwithheld
  exact hwithheld

/-- What is paid with an inverse fee is credited without it. -/
theorem paysIn_of_inverse (hvault : vault < 2 ^ 64) (hpos : 0 < post)
    (hinv : getTransferInverseFee mint epoch post = .ok fee) (hmax : post + fee ≤ maximum)
    (h : transferFromUserToPoolVault mint epoch user vault (post + fee) = .ok vault') :
    PaysIn mint epoch user maximum post fee vault vault' := by
  obtain ⟨credited, hcredit, -, rfl⟩ := transferFromUserToPoolVault_spec hvault h
  rcases hcredit with ⟨hzero, -⟩ | ⟨-, harriving⟩
  · omega
  · obtain rfl := arriving_of_inverse hinv harriving
    simp only [arriving, bind_eq_ok] at harriving
    obtain ⟨_, -, withheld, hwithheld, -⟩ := harriving
    obtain rfl := withheldFee_of_inverse hinv hwithheld
    exact ⟨hmax, h, hwithheld, rfl⟩

/-! ## The two handlers that invert a fee -/

theorem swapBaseOutput_pays {maxAmountIn amountOut userAmount : Nat} {toVault : Bool}
    {receipt : SwapReceipt} (hout : Documented (env.mint outputVault))
    (hvault : ∀ side, m.vault.get side < 2 ^ 64)
    (h : swapBaseOutput m env inputVault outputVault maxAmountIn amountOut userAmount toVault =
      .ok (m', receipt)) :
    receipt.event.inputAmount = receipt.result.inputAmount ∧
      PaysIn (env.mint inputVault) env.clock.epoch userAmount maxAmountIn receipt.event.inputAmount
        receipt.event.inputTransferFee (m.vault.get inputVault) (m'.vault.get inputVault) ∧
      receipt.event.outputAmount = amountOut + receipt.event.outputTransferFee ∧
      PaysOut (env.mint outputVault) env.clock.epoch amountOut receipt.event.outputTransferFee
        (m.vault.get outputVault) (m'.vault.get outputVault) toVault := by
  simp only [swapBaseOutput, bind_eq_ok] at h
  obtain ⟨q, hquote, hsettle⟩ := h
  obtain ⟨less, swapped, hq, -, -⟩ := quoteBaseOutput_spec hquote
  obtain ⟨rfl, rfl, heffect, -⟩ := settleSwap_spec hvault hq hsettle
  obtain ⟨hresult, -, hinEvent, houtEvent, hinFee, houtFee⟩ := settleSwap_event hsettle
  obtain ⟨vin, hvin⟩ := settleSwap_payment hsettle
  have hvout := settleSwap_payout hsettle
  simp only [quoteBaseOutput, bind_eq_ok, require_eq_ok, unwrap_eq_ok, tryFrom_eq_some,
    checkedAdd_eq_some, pure_eq_ok] at hquote
  obtain ⟨_, _, cached, _, outFee, hinvOut, _, ⟨h64, rfl⟩, pricing, _, result, _, _, ⟨_, rfl⟩, _,
    hpos, inFee, hinvIn, _, ⟨_, rfl⟩, _, hmax, _, ⟨_, rfl⟩, _, heq, rfl⟩ := hquote
  have hvin' := heffect.vaultInput
  dsimp only at hinvIn hinvOut hmax hvin hvin' hvout heq hresult hinEvent houtEvent hinFee houtFee
  rw [hresult, hinEvent, houtEvent, hinFee, houtFee]
  have hpays := paysIn_of_inverse (hvault _) hpos hinvIn hmax hvin
  rw [hpays.credited, ← hvin'] at hpays
  exact ⟨rfl, hpays, heq, hvout, withheldFee_grossed hout hinvOut h64⟩

/-- The amounts a deposit takes from the curve, and their payment. -/
theorem deposit_pays {k max0 max1 : Nat} {ownerAmount : PerToken Nat} {event : LpChangeEvent}
    (hvault : ∀ side, m.vault.get side < 2 ^ 64)
    (h : deposit m env k max0 max1 ownerAmount = .ok (m', event)) :
    ∃ total, m.poolState.vaultAmountWithoutFee m.vault.token0 m.vault.token1 = .ok total ∧
      CurveCalculator.lpTokensToTradingTokens k m.poolState.lpSupply total.token0 total.token1
        .ceiling = some ⟨event.token0Amount, event.token1Amount⟩ ∧
      PaysIn (env.mint .token0) env.clock.epoch ownerAmount.token0 max0 event.token0Amount
        event.token0TransferFee m.vault.token0 m'.vault.token0 ∧
      PaysIn (env.mint .token1) env.clock.epoch ownerAmount.token1 max1 event.token1Amount
        event.token1TransferFee m.vault.token1 m'.vault.token1 := by
  simp only [deposit, lpAmounts, bind_eq_ok, require_eq_ok, okOr_eq_ok, unwrap_eq_ok,
    tryFrom_eq_some, pure_eq_ok, Prod.mk.injEq] at h
  obtain ⟨_, _, _, _, total, htotal, _, ⟨results, hres, _, ⟨hne0, hne1⟩, rfl⟩, _, ⟨_, rfl⟩,
    ⟨total0, fee0⟩, hg0, _, ⟨_, rfl⟩, ⟨total1, fee1⟩, hg1, _, ⟨hmax0, hmax1⟩, vault0, hv0, vault1,
    hv1, _, _, _, _, rfl, rfl⟩ := h
  obtain ⟨hinv0, rfl⟩ := grossTransfer_eq_ok hg0
  obtain ⟨hinv1, rfl⟩ := grossTransfer_eq_ok hg1
  exact ⟨total, htotal, hres,
    paysIn_of_inverse (hvault .token0) (Nat.pos_of_ne_zero hne0) hinv0 hmax0 hv0,
    paysIn_of_inverse (hvault .token1) (Nat.pos_of_ne_zero hne1) hinv1 hmax1 hv1⟩

/-- **Transfer fees are inverted exactly.** For every documented configuration the inverse is
found and is the fee of the grossed-up amount, at the full rate too; so an exact-out swap
delivers what was asked for, and what it and a deposit take from the curve is what their
payments credit, each payment with its fee within the maximum given for it. -/
theorem transferFee_inverted :
    (∀ (mint : Mint) (config : TransferFeeConfig) (epoch post : Nat), config.AsDocumented →
      mint.owner = .token2022 → mint.transferFeeConfig = some config → 1 ≤ post →
      config.documentedPreFee epoch post < 2 ^ 64 →
      ∃ fee, getTransferInverseFee mint epoch post = .ok fee ∧
        config.documentedFee epoch (post + fee) = fee) ∧
    (∀ m env inputVault outputVault maxAmountIn amountOut userAmount toVault m' receipt,
      (∀ side, m.vault.get side < 2 ^ 64) → Documented (env.mint outputVault) →
      swapBaseOutput m env inputVault outputVault maxAmountIn amountOut userAmount toVault =
        .ok (m', receipt) →
      receipt.event.inputAmount = receipt.result.inputAmount ∧
        PaysIn (env.mint inputVault) env.clock.epoch userAmount maxAmountIn
          receipt.event.inputAmount receipt.event.inputTransferFee (m.vault.get inputVault)
          (m'.vault.get inputVault) ∧
        receipt.event.outputAmount = amountOut + receipt.event.outputTransferFee ∧
        PaysOut (env.mint outputVault) env.clock.epoch amountOut receipt.event.outputTransferFee
          (m.vault.get outputVault) (m'.vault.get outputVault) toVault) ∧
    (∀ m env k max0 max1 ownerAmount m' event, (∀ side, m.vault.get side < 2 ^ 64) →
      deposit m env k max0 max1 ownerAmount = .ok (m', event) →
      ∃ total, m.poolState.vaultAmountWithoutFee m.vault.token0 m.vault.token1 = .ok total ∧
        CurveCalculator.lpTokensToTradingTokens k m.poolState.lpSupply total.token0 total.token1
          .ceiling = some ⟨event.token0Amount, event.token1Amount⟩ ∧
        PaysIn (env.mint .token0) env.clock.epoch ownerAmount.token0 max0 event.token0Amount
          event.token0TransferFee m.vault.token0 m'.vault.token0 ∧
        PaysIn (env.mint .token1) env.clock.epoch ownerAmount.token1 max1 event.token1Amount
          event.token1TransferFee m.vault.token1 m'.vault.token1) := by
  refine ⟨?_, ?_, ?_⟩
  · intro mint config epoch post hconfig howner hfee hpost hfits
    have hsum := TransferFeeConfig.add_documentedFee hconfig epoch hpost
    refine ⟨_, getTransferInverseFee_asDocumented hconfig howner hfee hpost hfits, ?_⟩
    rw [hsum]
  · intro m env inputVault outputVault maxAmountIn amountOut userAmount toVault m' receipt hvault
      hout h
    exact swapBaseOutput_pays hout hvault h
  · intro m env k max0 max1 ownerAmount m' event hvault h
    exact deposit_pays hvault h

/-- 1 % up to 5000 before epoch 600, 2 % up to 20 from then on. -/
def exampleSchedule : TransferFeeSchedule where
  older := ⟨0, 5000, 100⟩
  newer := ⟨600, 20, 200⟩
  older_le := by decide
  newer_le := by decide

def exampleFeeMint : Mint := ⟨6, .token2022, some exampleSchedule.config⟩

theorem documented_exampleFeeMint : Documented exampleFeeMint := by
  intro config h
  cases h
  exact exampleSchedule.config_asDocumented

def exampleFeeEnv : Env := ⟨⟨1100, 1100, 600⟩, ⟨exampleFeeMint, exampleFeeMint⟩⟩

/-- Two mints with the fee in force at epoch 600. At the cap, 2 % of what leaves 1000 is 21
and the maximum 20; then an exact-out swap and a deposit, both of them within tight maxima. -/
theorem transferFee_inverted_exampleFeeEnv :
    (∃ fee, getTransferInverseFee exampleFeeMint 600 1000 = .ok fee ∧
      exampleSchedule.config.documentedFee 600 (1000 + fee) = fee) ∧
    (∃ m' receipt,
      swapBaseOutput (next Market.step examplePool (examplePush 99900000 100100000 500))
        exampleFeeEnv .token0 .token1 1005000 1000000 2000000 false = .ok (m', receipt) ∧
      PaysIn exampleFeeMint 600 2000000 1005000 receipt.event.inputAmount
        receipt.event.inputTransferFee 1000000000 (m'.vault.get .token0) ∧
      PaysOut exampleFeeMint 600 1000000 receipt.event.outputTransferFee 1000000000
        (m'.vault.get .token1) false) ∧
    (∃ m' event, deposit examplePool exampleFeeEnv 1000 1020 1020 ⟨5000, 5000⟩ = .ok (m', event) ∧
      PaysIn exampleFeeMint 600 5000 1020 event.token0Amount event.token0TransferFee 1000000000
        m'.vault.token0 ∧
      PaysIn exampleFeeMint 600 5000 1020 event.token1Amount event.token1TransferFee 1000000000
        m'.vault.token1) := by
  refine ⟨?_, ?_, ?_⟩
  · exact transferFee_inverted.1 exampleFeeMint exampleSchedule.config 600 1000
      exampleSchedule.config_asDocumented rfl rfl (by decide) (by decide +kernel)
  · obtain ⟨⟨m', receipt⟩, h⟩ := exists_of_isOk (show (swapBaseOutput
      (next Market.step examplePool (examplePush 99900000 100100000 500)) exampleFeeEnv .token0
      .token1 1005000 1000000 2000000 false).toOption.isSome = true by decide +kernel)
    obtain ⟨-, hin, -, hout⟩ := transferFee_inverted.2.1 _ exampleFeeEnv _ .token1 _ _ _ _ _ _
      (fun side => by cases side <;> decide +kernel) documented_exampleFeeMint h
    exact ⟨m', receipt, h, hin, hout⟩
  · obtain ⟨⟨m', event⟩, h⟩ := exists_of_isOk (show (deposit examplePool exampleFeeEnv 1000 1020
      1020 ⟨5000, 5000⟩).toOption.isSome = true by decide +kernel)
    obtain ⟨total, -, -, h0, h1⟩ := transferFee_inverted.2.2 _ _ _ _ _ _ _ _
      (fun side => by cases side <;> decide +kernel) h
    exact ⟨m', event, h, h0, h1⟩

end NomadAmm.Soundness.TransferFees

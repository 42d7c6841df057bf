import NomadAmm.Lib.CappedFee
import NomadAmm.Utils.Token

/-! The transfer fees of the token library, as it documents them: a rate in basis points
rounded up under a maximum, an inverse that looks for the payment leaving a given amount,
and a change of both at an epoch. -/

namespace NomadAmm

open Lib.CappedFee

namespace TransferFeeConfig

variable (config : TransferFeeConfig)

/-- The fee on an amount at the rate in force. -/
def documentedFee (epoch amount : Nat) : Nat :=
  cappedFee maxFeeBasisPoints (config.transferFeeBasisPoints epoch) (config.maximumFee epoch) amount

/-- The payment that leaves an amount at the rate in force. -/
def documentedPreFee (epoch postFeeAmount : Nat) : Nat :=
  preFee maxFeeBasisPoints (config.transferFeeBasisPoints epoch) (config.maximumFee epoch)
    postFeeAmount

/-- Amounts are `u64`; only an inverse payment that is not has no answer. -/
structure AsDocumented : Prop where
  rate_le : ∀ epoch, config.transferFeeBasisPoints epoch ≤ maxFeeBasisPoints
  calculate : ∀ epoch amount, amount < 2 ^ 64 →
    config.calculateEpochFee epoch amount = some (config.documentedFee epoch amount)
  inverse : ∀ epoch postFeeAmount, config.calculateInverseEpochFee epoch postFeeAmount =
    if config.documentedPreFee epoch postFeeAmount < 2 ^ 64 then
      some (config.documentedFee epoch (config.documentedPreFee epoch postFeeAmount))
    else none

end TransferFeeConfig

/-! ## A stored configuration -/

structure TransferFee where
  epoch : Nat
  maximumFee : Nat
  transferFeeBasisPoints : Nat
  deriving DecidableEq, Repr

/-- The fee until an epoch and the one from then on. -/
structure TransferFeeSchedule where
  older : TransferFee
  newer : TransferFee
  older_le : older.transferFeeBasisPoints ≤ maxFeeBasisPoints
  newer_le : newer.transferFeeBasisPoints ≤ maxFeeBasisPoints

namespace TransferFeeSchedule

variable (s : TransferFeeSchedule)

def getEpochFee (epoch : Nat) : TransferFee := if s.newer.epoch ≤ epoch then s.newer else s.older

theorem getEpochFee_le (epoch : Nat) :
    (s.getEpochFee epoch).transferFeeBasisPoints ≤ maxFeeBasisPoints := by
  unfold getEpochFee
  split
  · exact s.newer_le
  · exact s.older_le

def config : TransferFeeConfig where
  transferFeeBasisPoints epoch := (s.getEpochFee epoch).transferFeeBasisPoints
  maximumFee epoch := (s.getEpochFee epoch).maximumFee
  calculateEpochFee epoch amount :=
    let fee := s.getEpochFee epoch
    some (cappedFee maxFeeBasisPoints fee.transferFeeBasisPoints fee.maximumFee amount)
  calculateInverseEpochFee epoch postFeeAmount :=
    let fee := s.getEpochFee epoch
    let preFeeAmount :=
      preFee maxFeeBasisPoints fee.transferFeeBasisPoints fee.maximumFee postFeeAmount
    if preFeeAmount < 2 ^ 64 then
      some (cappedFee maxFeeBasisPoints fee.transferFeeBasisPoints fee.maximumFee preFeeAmount)
    else none
  fee_le_amount := by
    intro epoch amount fee h
    cases h
    exact cappedFee_le (s.getEpochFee_le epoch) (by decide) _ _
  full_rate := by
    intro epoch amount fee hfull h
    cases h
    rw [hfull]
    exact cappedFee_full (by decide) _ _

theorem config_asDocumented : s.config.AsDocumented where
  rate_le epoch := s.getEpochFee_le epoch
  calculate _ _ _ := rfl
  inverse _ _ := rfl

end TransferFeeSchedule

/-! ## What the program computes from a documented fee -/

section

variable {mint : Mint} {config : TransferFeeConfig} {epoch post : Nat}

/-- **A fee is inverted exactly**, at the full rate too. -/
theorem TransferFeeConfig.add_documentedFee (hconfig : config.AsDocumented) (epoch : Nat)
    (hpost : 0 < post) :
    post + config.documentedFee epoch (config.documentedPreFee epoch post) =
      config.documentedPreFee epoch post :=
  add_cappedFee_preFee (hconfig.rate_le epoch) (by decide) _ hpost

/-- The program's check of the inverse against the forward fee always passes. -/
theorem getTransferInverseFee_asDocumented (hconfig : config.AsDocumented)
    (howner : mint.owner = .token2022) (hfee : mint.transferFeeConfig = some config)
    (hpost : 0 < post) (hfits : config.documentedPreFee epoch post < 2 ^ 64) :
    getTransferInverseFee mint epoch post =
      .ok (config.documentedFee epoch (config.documentedPreFee epoch post)) := by
  have hsum := TransferFeeConfig.add_documentedFee hconfig epoch hpost
  simp only [getTransferInverseFee, howner, hfee, Exec.require_pos hpost.ne', Exec.ok_bind]
  by_cases hfull : config.transferFeeBasisPoints epoch = maxFeeBasisPoints
  · rw [if_pos hfull]
    unfold TransferFeeConfig.documentedFee TransferFeeConfig.documentedPreFee
    rw [hfull, (cappedFee_preFee_full (by decide) _ hpost).1]
    rfl
  · have hadd : Lib.Checked.checkedAdd 64 post (config.documentedFee epoch
        (config.documentedPreFee epoch post)) = some (config.documentedPreFee epoch post) :=
      Lib.Checked.checkedAdd_eq_some.mpr ⟨by omega, hsum⟩
    rw [if_neg hfull]
    simp only [checkedInverseFee, hconfig.inverse, hfits, if_true, Exec.unwrap, hadd,
      hconfig.calculate epoch _ hfits, Exec.ok_bind, Exec.require_pos]
    rfl

end

end NomadAmm

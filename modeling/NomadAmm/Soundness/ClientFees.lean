import NomadAmm.Client.Commands
import NomadAmm.Soundness.TransferFees

/-! The transfer fees of the command line against those of the program. The helpers take
the epoch before the amount, their callers pass the amount before the epoch, and both are
`u64`: what is computed is the fee of an epoch number at the rate of another epoch. It is
the fee charged for a mint without transfer fees, where a common maximum hides the rest,
and otherwise by coincidence only. -/

namespace NomadAmm.Soundness.ClientFees

open Lib.Checked Lib.CappedFee Exec
open Soundness.TransferFees

variable {mint : Mint} {config : TransferFeeConfig} {epoch amount fee : Nat}

/-! ## One mint -/

/-- The rate in force at `epoch` on `amount`, and the rate in force at the epoch numbered
`amount` on the number `epoch`, reach the same fees under their maxima. -/
def FeeCoincides (mint : Mint) (epoch amount : Nat) : Prop :=
  mint.owner = .token ∨ ∀ config, mint.transferFeeConfig = some config →
    SameUnder (config.maximumFee amount) (config.maximumFee epoch)
      (Reaches 10000 (config.transferFeeBasisPoints amount) epoch)
      (Reaches 10000 (config.transferFeeBasisPoints epoch) amount)

/-- The same for the inverse fee, where the payment for the number `epoch` fits 64 bits. -/
def InverseFeeCoincides (mint : Mint) (epoch amount : Nat) : Prop :=
  mint.owner = .token ∨ ∀ config, mint.transferFeeConfig = some config →
    SameUnder (config.maximumFee amount) (config.maximumFee epoch)
        (InverseReaches 10000 (config.transferFeeBasisPoints amount) epoch)
        (InverseReaches 10000 (config.transferFeeBasisPoints epoch) amount) ∧
      (config.transferFeeBasisPoints amount = 10000 ∨
        epoch + config.maximumFee amount < 2 ^ 64 ∨
        epoch * 10000 ≤ (2 ^ 64 - 1) * (10000 - config.transferFeeBasisPoints amount))

/-- A maximum that both rates reach, and that is in force at both, hides everything. -/
theorem feeCoincides_of_reaches (hconfig : mint.transferFeeConfig = some config)
    (hmax : config.maximumFee amount = config.maximumFee epoch)
    (hclient : Reaches 10000 (config.transferFeeBasisPoints amount) epoch (config.maximumFee epoch))
    (hchain : Reaches 10000 (config.transferFeeBasisPoints epoch) amount
      (config.maximumFee epoch)) : FeeCoincides mint epoch amount := by
  refine .inr ?_
  intro config' h
  rw [hconfig] at h
  cases h
  rw [hmax]
  refine .inl ⟨?_, ?_, .inl le_rfl, .inl le_rfl⟩
  · rwa [min_self]
  · rwa [min_self]

/-- With its arguments in order the client's fee is the program's. -/
theorem clientFee_of_fee (h : getTransferFee mint epoch amount = .ok fee) :
    Client.getTransferFee (Client.unpackMint mint) epoch amount = .ok fee := by
  unfold getTransferFee at h
  unfold Client.getTransferFee Client.unpackMint
  cases howner : mint.owner with
  | token => simpa only [howner] using h
  | token2022 =>
    cases hconfig : mint.transferFeeConfig with
    | none => simpa only [howner, hconfig] using h
    | some config => simpa only [howner, hconfig] using h

theorem clientInverseFee_of_inverseFee (h : getTransferInverseFee mint epoch amount = .ok fee) :
    Client.getTransferInverseFee (Client.unpackMint mint) epoch amount = .ok fee := by
  unfold getTransferInverseFee at h
  unfold Client.getTransferInverseFee Client.unpackMint
  cases howner : mint.owner with
  | token => simpa only [howner] using h
  | token2022 =>
    simp only [howner, bind_eq_ok, require_eq_ok] at h
    obtain ⟨_, _, h⟩ := h
    cases hconfig : mint.transferFeeConfig with
    | none => simpa only [hconfig] using h
    | some config =>
      simp only [hconfig] at h ⊢
      by_cases hfull : config.transferFeeBasisPoints epoch = maxFeeBasisPoints
      · rw [if_pos hfull] at h ⊢
        exact h
      · rw [if_neg hfull] at h ⊢
        simp only [checkedInverseFee, bind_eq_ok, unwrap_eq_ok, require_eq_ok, pure_eq_ok] at h
        obtain ⟨_, hinverse, _, _, _, _, _, _, rfl⟩ := h
        exact unwrap_eq_ok.mpr hinverse

/-- The client's fees of a documented configuration, in closed form. -/
theorem clientFee_eq (hdoc : config.AsDocumented) (hamount : amount < 2 ^ 64) :
    Client.getTransferFee (some config) epoch amount = .ok fee ↔
      cappedFee 10000 (config.transferFeeBasisPoints epoch) (config.maximumFee epoch) amount =
        fee := by
  simp only [Client.getTransferFee, hdoc.calculate epoch amount hamount, unwrap, Except.ok.injEq]
  rfl

theorem clientInverseFee_eq (hdoc : config.AsDocumented) :
    Client.getTransferInverseFee (some config) epoch amount = .ok fee ↔
      inverseFee 10000 (config.transferFeeBasisPoints epoch) (config.maximumFee epoch) amount =
          fee ∧
        (config.transferFeeBasisPoints epoch = 10000 ∨
          amount + inverseFee 10000 (config.transferFeeBasisPoints epoch)
            (config.maximumFee epoch) amount < 2 ^ 64) := by
  unfold Client.getTransferInverseFee
  dsimp only
  by_cases hfull : config.transferFeeBasisPoints epoch = maxFeeBasisPoints
  · rw [if_pos hfull, hfull, pure_eq_ok]
    simp only [inverseFee, maxFeeBasisPoints, if_true, true_or, and_true]
  · have hlt : config.transferFeeBasisPoints epoch < maxFeeBasisPoints :=
      lt_of_le_of_ne (hdoc.rate_le epoch) hfull
    obtain ⟨hfee, hpre⟩ := cappedFee_preFee_lt hlt (config.maximumFee epoch) amount
    rw [if_neg hfull, unwrap_eq_ok, hdoc.inverse]
    unfold TransferFeeConfig.documentedFee TransferFeeConfig.documentedPreFee
    rw [hfee, hpre]
    unfold maxFeeBasisPoints at hfull ⊢
    simp only [hfull, false_or]
    split
    · next hfits => simp only [Option.some.injEq, hfits, and_true]
    · next hfits => simp only [reduceCtorEq, hfits, and_false]

/-- Whether a mint has transfer fees, as the client reads it. -/
theorem unpackMint_eq_none : Client.unpackMint mint = none ↔
    mint.owner = .token ∨ mint.transferFeeConfig = none := by
  unfold Client.unpackMint
  cases mint.owner with
  | token => simp only [true_or]
  | token2022 => simp only [reduceCtorEq, false_or]

theorem unpackMint_eq_some (h : Client.unpackMint mint = some config) :
    mint.owner ≠ .token ∧ mint.transferFeeConfig = some config := by
  unfold Client.unpackMint at h
  cases howner : mint.owner with
  | token => simp only [howner, reduceCtorEq] at h
  | token2022 => exact ⟨nofun, by simpa only [howner] using h⟩

theorem feeCoincides_of_none (h : Client.unpackMint mint = none) :
    FeeCoincides mint epoch amount ∧ InverseFeeCoincides mint epoch amount := by
  rcases unpackMint_eq_none.mp h with howner | hconfig
  · exact ⟨.inl howner, .inl howner⟩
  · exact ⟨.inr (by simp only [hconfig, reduceCtorEq, false_implies, implies_true]),
      .inr (by simp only [hconfig, reduceCtorEq, false_implies, implies_true])⟩

theorem clientFee_iff (hmint : Documented mint) (hepoch : epoch < 2 ^ 64)
    (hamount : amount < 2 ^ 64) (h : getTransferFee mint epoch amount = .ok fee) :
    Client.getTransferFee (Client.unpackMint mint) amount epoch = .ok fee ↔
      FeeCoincides mint epoch amount := by
  have hordered := clientFee_of_fee h
  cases hunpack : Client.unpackMint mint with
  | none =>
    rw [hunpack] at hordered
    exact iff_of_true hordered (feeCoincides_of_none hunpack).1
  | some config =>
    obtain ⟨howner, hconfig⟩ := unpackMint_eq_some hunpack
    have hdoc := hmint config hconfig
    rw [hunpack, clientFee_eq hdoc hamount] at hordered
    rw [clientFee_eq hdoc hepoch, ← hordered,
      eq_iff_sameUnder (le_cappedFee_iff (by decide) _ _ _) (le_cappedFee_iff (by decide) _ _ _)]
    simp only [FeeCoincides, howner, hconfig, Option.some.injEq, false_or, forall_eq']

/-- Whether the inverse of the number `epoch` at a rate can be computed, on the numbers. -/
theorem inverseFits_iff (hrate : config.transferFeeBasisPoints amount ≤ 10000) :
    (config.transferFeeBasisPoints amount = 10000 ∨
      epoch + inverseFee 10000 (config.transferFeeBasisPoints amount) (config.maximumFee amount)
        epoch < 2 ^ 64) ↔
    (config.transferFeeBasisPoints amount = 10000 ∨ epoch + config.maximumFee amount < 2 ^ 64 ∨
      epoch * 10000 ≤ (2 ^ 64 - 1) * (10000 - config.transferFeeBasisPoints amount)) := by
  by_cases hfull : config.transferFeeBasisPoints amount = 10000
  · simp only [hfull, true_or]
  · rw [add_inverseFee_lt_iff (lt_of_le_of_ne hrate hfull) _ _ _ (by decide)]

theorem clientInverseFee_iff (hmint : Documented mint)
    (h : getTransferInverseFee mint epoch amount = .ok fee) :
    Client.getTransferInverseFee (Client.unpackMint mint) amount epoch = .ok fee ↔
      InverseFeeCoincides mint epoch amount := by
  have hordered := clientInverseFee_of_inverseFee h
  cases hunpack : Client.unpackMint mint with
  | none =>
    rw [hunpack] at hordered
    exact iff_of_true hordered (feeCoincides_of_none hunpack).2
  | some config =>
    obtain ⟨howner, hconfig⟩ := unpackMint_eq_some hunpack
    have hdoc := hmint config hconfig
    rw [hunpack, clientInverseFee_eq hdoc] at hordered
    have hrate : ∀ epoch, config.transferFeeBasisPoints epoch ≤ 10000 := hdoc.rate_le
    rw [clientInverseFee_eq hdoc, ← hordered.1, inverseFits_iff (hrate amount),
      eq_iff_sameUnder (le_inverseFee_iff (hrate amount) _ _) (le_inverseFee_iff (hrate epoch) _ _)]
    simp only [InverseFeeCoincides, howner, hconfig, Option.some.injEq, false_or, forall_eq']

/-! ## The two mints of a pool -/

section

variable {env : Env} {amount0 amount1 fee0 fee1 : Nat}

theorem poolMintsInverseFee_iff (hmint : ∀ side, Documented (env.mint side))
    (h0 : getTransferInverseFee (env.mint .token0) env.clock.epoch amount0 = .ok fee0)
    (h1 : getTransferInverseFee (env.mint .token1) env.clock.epoch amount1 = .ok fee1) :
    Client.getPoolMintsInverseFee env .token0 .token1 amount0 amount1 =
        .ok (⟨.token0, (env.mint .token0).owner, fee0⟩,
          ⟨.token1, (env.mint .token1).owner, fee1⟩) ↔
      InverseFeeCoincides (env.mint .token0) env.clock.epoch amount0 ∧
        InverseFeeCoincides (env.mint .token1) env.clock.epoch amount1 := by
  unfold Client.getPoolMintsInverseFee
  rw [Client.getPoolMintsFee_eq_ok]
  exact and_congr (clientInverseFee_iff (hmint _) h0) (clientInverseFee_iff (hmint _) h1)

theorem poolMintsTransferFee_iff (hmint : ∀ side, Documented (env.mint side))
    (hepoch : env.clock.epoch < 2 ^ 64) (hamount0 : amount0 < 2 ^ 64) (hamount1 : amount1 < 2 ^ 64)
    (h0 : getTransferFee (env.mint .token0) env.clock.epoch amount0 = .ok fee0)
    (h1 : getTransferFee (env.mint .token1) env.clock.epoch amount1 = .ok fee1) :
    Client.getPoolMintsTransferFee env .token0 .token1 amount0 amount1 =
        .ok (⟨.token0, (env.mint .token0).owner, fee0⟩,
          ⟨.token1, (env.mint .token1).owner, fee1⟩) ↔
      FeeCoincides (env.mint .token0) env.clock.epoch amount0 ∧
        FeeCoincides (env.mint .token1) env.clock.epoch amount1 := by
  unfold Client.getPoolMintsTransferFee
  rw [Client.getPoolMintsFee_eq_ok]
  exact and_congr (clientFee_iff (hmint _) hepoch hamount0 h0)
    (clientFee_iff (hmint _) hepoch hamount1 h1)

/-- The helpers answer with a fee for each mint, or not at all. -/
theorem poolMintsFee_ok {fee : Option TransferFeeConfig → Nat → Nat → Exec Nat}
    {infos : Client.TransferFeeInfo × Client.TransferFeeInfo}
    (h : Client.getPoolMintsFee fee env .token0 .token1 amount0 amount1 = .ok infos) :
    infos = (⟨.token0, (env.mint .token0).owner, infos.1.transferFee⟩,
      ⟨.token1, (env.mint .token1).owner, infos.2.transferFee⟩) := by
  simp only [Client.getPoolMintsFee, bind_eq_ok, pure_eq_ok] at h
  obtain ⟨_, -, _, -, rfl⟩ := h
  rfl

/-! ## The bounds of the two commands -/

variable {amountWithSlippage : Nat → Bool → Nat} {m : Market} {k : Nat}
  {results : TradingTokenResult}

/-- The maxima a deposit sends have the client's inverse fees on top. -/
theorem deposit_bounds_iff (hresults : Client.depositAmounts m k = .ok results)
    (hamount0 : amountWithSlippage (results.token0Amount % 2 ^ 64) true = amount0)
    (hamount1 : amountWithSlippage (results.token1Amount % 2 ^ 64) true = amount1)
    (h64 : amount0 + fee0 < 2 ^ 64 ∧ amount1 + fee1 < 2 ^ 64) :
    Client.deposit amountWithSlippage m env k =
        .ok ⟨results, amount0 + fee0, amount1 + fee1⟩ ↔
      Client.getPoolMintsInverseFee env .token0 .token1 amount0 amount1 =
        .ok (⟨.token0, (env.mint .token0).owner, fee0⟩,
          ⟨.token1, (env.mint .token1).owner, fee1⟩) := by
  simp only [Client.deposit, hresults, ok_bind, hamount0, hamount1, bind_eq_ok, unwrap_eq_ok,
    checkedAdd_eq_some, pure_eq_ok, Client.LpCommand.mk.injEq, true_and]
  constructor
  · intro h
    obtain ⟨infos, hinfos, _, ⟨-, rfl⟩, _, ⟨-, rfl⟩, h0, h1⟩ := h
    rw [hinfos, poolMintsFee_ok hinfos, Nat.add_left_cancel h0, Nat.add_left_cancel h1]
  · intro h
    exact ⟨_, h, _, ⟨h64.1, rfl⟩, _, ⟨h64.2, rfl⟩, rfl, rfl⟩

/-- The minima a withdrawal sends have the client's fees taken off. -/
theorem withdraw_bounds_iff (hresults : Client.withdrawAmounts m k = .ok results)
    (hamount0 : amountWithSlippage (results.token0Amount % 2 ^ 64) false = amount0)
    (hamount1 : amountWithSlippage (results.token1Amount % 2 ^ 64) false = amount1)
    (hle : fee0 ≤ amount0 ∧ fee1 ≤ amount1) :
    Client.withdraw amountWithSlippage m env k =
        .ok ⟨results, amount0 - fee0, amount1 - fee1⟩ ↔
      Client.getPoolMintsTransferFee env .token0 .token1 amount0 amount1 =
        .ok (⟨.token0, (env.mint .token0).owner, fee0⟩,
          ⟨.token1, (env.mint .token1).owner, fee1⟩) := by
  simp only [Client.withdraw, hresults, ok_bind, hamount0, hamount1, bind_eq_ok, unwrap_eq_ok,
    checkedSub_eq_some, pure_eq_ok, Client.LpCommand.mk.injEq, true_and]
  constructor
  · intro h
    obtain ⟨infos, hinfos, _, ⟨hle0, rfl⟩, _, ⟨hle1, rfl⟩, h0, h1⟩ := h
    have hfee0 : infos.1.transferFee = fee0 := by omega
    have hfee1 : infos.2.transferFee = fee1 := by omega
    rw [hinfos, poolMintsFee_ok hinfos, hfee0, hfee1]
  · intro h
    exact ⟨_, h, _, ⟨hle.1, rfl⟩, _, ⟨hle.2, rfl⟩, rfl, rfl⟩

end

/-- **The client's transfer fees are the program's by coincidence only**: for both mints the
swapped arguments have to reach the fees the ordered ones do; and the maxima of a deposit
and the minima of a withdrawal include the fee the program takes of these amounts exactly
then. -/
theorem clientFees_iff (env : Env) (hmint : ∀ side, Documented (env.mint side))
    (hepoch : env.clock.epoch < 2 ^ 64) (amountWithSlippage : Nat → Bool → Nat)
    (hslippage : ∀ amount roundUp, amountWithSlippage amount roundUp < 2 ^ 64) :
    (∀ amount0 amount1 fee0 fee1,
      getTransferInverseFee (env.mint .token0) env.clock.epoch amount0 = .ok fee0 →
      getTransferInverseFee (env.mint .token1) env.clock.epoch amount1 = .ok fee1 →
      (Client.getPoolMintsInverseFee env .token0 .token1 amount0 amount1 =
          .ok (⟨.token0, (env.mint .token0).owner, fee0⟩,
            ⟨.token1, (env.mint .token1).owner, fee1⟩) ↔
        InverseFeeCoincides (env.mint .token0) env.clock.epoch amount0 ∧
          InverseFeeCoincides (env.mint .token1) env.clock.epoch amount1)) ∧
    (∀ amount0 amount1 fee0 fee1, amount0 < 2 ^ 64 → amount1 < 2 ^ 64 →
      getTransferFee (env.mint .token0) env.clock.epoch amount0 = .ok fee0 →
      getTransferFee (env.mint .token1) env.clock.epoch amount1 = .ok fee1 →
      (Client.getPoolMintsTransferFee env .token0 .token1 amount0 amount1 =
          .ok (⟨.token0, (env.mint .token0).owner, fee0⟩,
            ⟨.token1, (env.mint .token1).owner, fee1⟩) ↔
        FeeCoincides (env.mint .token0) env.clock.epoch amount0 ∧
          FeeCoincides (env.mint .token1) env.clock.epoch amount1)) ∧
    (∀ m k results amount0 amount1 fee0 fee1, Client.depositAmounts m k = .ok results →
      amountWithSlippage (results.token0Amount % 2 ^ 64) true = amount0 →
      amountWithSlippage (results.token1Amount % 2 ^ 64) true = amount1 →
      getTransferInverseFee (env.mint .token0) env.clock.epoch amount0 = .ok fee0 →
      getTransferInverseFee (env.mint .token1) env.clock.epoch amount1 = .ok fee1 →
      amount0 + fee0 < 2 ^ 64 ∧ amount1 + fee1 < 2 ^ 64 →
      (Client.deposit amountWithSlippage m env k =
          .ok ⟨results, amount0 + fee0, amount1 + fee1⟩ ↔
        InverseFeeCoincides (env.mint .token0) env.clock.epoch amount0 ∧
          InverseFeeCoincides (env.mint .token1) env.clock.epoch amount1)) ∧
    (∀ m k results amount0 amount1 fee0 fee1, Client.withdrawAmounts m k = .ok results →
      amountWithSlippage (results.token0Amount % 2 ^ 64) false = amount0 →
      amountWithSlippage (results.token1Amount % 2 ^ 64) false = amount1 →
      getTransferFee (env.mint .token0) env.clock.epoch amount0 = .ok fee0 →
      getTransferFee (env.mint .token1) env.clock.epoch amount1 = .ok fee1 →
      (Client.withdraw amountWithSlippage m env k =
          .ok ⟨results, amount0 - fee0, amount1 - fee1⟩ ↔
        FeeCoincides (env.mint .token0) env.clock.epoch amount0 ∧
          FeeCoincides (env.mint .token1) env.clock.epoch amount1)) := by
  refine ⟨?_, ?_, ?_, ?_⟩
  · intro amount0 amount1 fee0 fee1 hfee0 hfee1
    exact poolMintsInverseFee_iff hmint hfee0 hfee1
  · intro amount0 amount1 fee0 fee1 hamount0 hamount1 hfee0 hfee1
    exact poolMintsTransferFee_iff hmint hepoch hamount0 hamount1 hfee0 hfee1
  · intro m k results amount0 amount1 fee0 fee1 hresults hamount0 hamount1 hfee0 hfee1 h64
    rw [deposit_bounds_iff hresults hamount0 hamount1 h64]
    exact poolMintsInverseFee_iff hmint hfee0 hfee1
  · intro m k results amount0 amount1 fee0 fee1 hresults hamount0 hamount1 hfee0 hfee1
    rw [withdraw_bounds_iff hresults hamount0 hamount1
      ⟨getTransferFee_le hfee0, getTransferFee_le hfee1⟩]
    exact poolMintsTransferFee_iff hmint hepoch (hamount0 ▸ hslippage _ _)
      (hamount1 ▸ hslippage _ _) hfee0 hfee1

/-- Of a million at epoch 600 the program withholds the maximum, 20; the client takes 2 % of
600, which is 12, or grosses 600 up by 13. -/
theorem clientFees_differ :
    getTransferFee exampleFeeMint 600 1000000 = .ok 20 ∧
      getTransferInverseFee exampleFeeMint 600 1000000 = .ok 20 ∧
      Client.getPoolMintsTransferFee exampleFeeEnv .token0 .token1 1000000 1000000 =
        .ok (⟨.token0, .token2022, 12⟩, ⟨.token1, .token2022, 12⟩) ∧
      Client.getPoolMintsInverseFee exampleFeeEnv .token0 .token1 1000000 1000000 =
        .ok (⟨.token0, .token2022, 13⟩, ⟨.token1, .token2022, 13⟩) := by
  refine ⟨?_, ?_, ?_, ?_⟩ <;> decide +kernel

def exampleLateEnv : Env := ⟨⟨1100, 1100, 1000⟩, ⟨exampleFeeMint, exampleFeeMint⟩⟩

/-- From epoch 1000 on the epoch itself is worth the maximum of 20, which hides the swap: a
deposit and a withdrawal of a million send bounds with the fee in them. -/
theorem clientFees_iff_exampleLateEnv :
    Client.deposit (fun amount _ => amount % 2 ^ 64) examplePool exampleLateEnv 1000000 =
        .ok ⟨⟨1000000, 1000000⟩, 1000000 + 20, 1000000 + 20⟩ ∧
      Client.withdraw (fun amount _ => amount % 2 ^ 64) examplePool exampleLateEnv 1000000 =
        .ok ⟨⟨1000000, 1000000⟩, 1000000 - 20, 1000000 - 20⟩ := by
  have hmint : ∀ side, Documented (exampleLateEnv.mint side) := by
    intro side
    cases side <;> exact documented_exampleFeeMint
  have hfee : FeeCoincides exampleFeeMint 1000 1000000 :=
    feeCoincides_of_reaches
      (show exampleFeeMint.transferFeeConfig = some exampleSchedule.config from rfl) rfl
      (by decide +kernel) (by decide +kernel)
  have hinverse : InverseFeeCoincides exampleFeeMint 1000 1000000 := by
    refine .inr ?_
    intro config h
    cases h
    exact ⟨.inl (by decide +kernel), by decide +kernel⟩
  obtain ⟨-, -, hdeposit, hwithdraw⟩ := clientFees_iff exampleLateEnv hmint (by decide)
    (fun amount _ => amount % 2 ^ 64) (fun amount _ => Nat.mod_lt amount (by decide))
  exact ⟨(hdeposit examplePool 1000000 ⟨1000000, 1000000⟩ 1000000 1000000 20 20
      (by decide +kernel) rfl rfl (by decide +kernel) (by decide +kernel)
      (by decide)).mpr ⟨hinverse, hinverse⟩,
    (hwithdraw examplePool 1000000 ⟨1000000, 1000000⟩ 1000000 1000000 20 20
      (by decide +kernel) rfl rfl (by decide +kernel) (by decide +kernel)).mpr ⟨hfee, hfee⟩⟩

end NomadAmm.Soundness.ClientFees

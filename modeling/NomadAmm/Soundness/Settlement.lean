import NomadAmm.Instructions.Swap

/-! What a successful swap of either kind posts to the ledger. The two handlers quote
differently and settle alike; `Quoted` is what the settlement needs to know of a quote,
and `SwapEffect` what it leaves behind. -/

namespace NomadAmm.Soundness.Settlement

open Lib.Checked Exec Instructions

variable {m m' : Market} {env : Env} {inputVault outputVault : TokenSide} {q : SwapQuote}
  {receipt : SwapReceipt} {less swapped : Nat} {cached : Int × Int × Int} {p : Pricing}

theorem openSwap_eq_ok {clock : Clock} : openSwap m clock = .ok cached ↔
    m.poolState.cachedOracleQuote = some cached ∧ m.poolState.getStatusByBit .swap = true ∧
      m.poolState.openTime ≤ clock.blockTimestamp := by
  simp only [openSwap, bind_eq_ok, okOr_eq_ok, require_eq_ok, pure_eq_ok]
  constructor
  · intro h
    obtain ⟨_, hc, _, hopen, rfl⟩ := h
    exact ⟨hc, hopen⟩
  · intro h
    obtain ⟨hc, hopen⟩ := h
    exact ⟨_, hc, (), hopen, rfl⟩

theorem priceSwap_spec (h : priceSwap m inputVault outputVault cached = .ok p) :
    m.poolState.getSwapParams inputVault outputVault (m.vault.get inputVault)
        (m.vault.get outputVault) = .ok p.params ∧
      p.exponent = cached.2.2 ∧
      m.poolState.skewedQuote p.params cached.1 cached.2.1 cached.2.2 = .ok p.quote ∧
      (∃ canonical, pythPriceToRawFraction (p.quote.effectiveMantissa p.params.tradeDirection)
          cached.2.2 m.poolState.mint0Decimals m.poolState.mint1Decimals = some canonical ∧
        p.params.tradeDirection.orient canonical = (p.spotNum, p.spotDen)) ∧
      p.effectiveTradeFeeRate = m.poolState.effectiveTradeFeeRate m.ammConfig.tradeFeeRate ∧
      p.creatorFeeRate = m.poolState.adjustCreatorFeeRate m.ammConfig.creatorFeeRate := by
  simp only [priceSwap, bind_eq_ok, okOr_eq_ok, pure_eq_ok] at h
  obtain ⟨params, hparams, quote, hquote, canonical, hcanonical, rfl⟩ := h
  exact ⟨hparams, rfl, hquote, ⟨canonical, hcanonical, rfl⟩, rfl, rfl⟩

/-- The vaults name the direction of a pricing. -/
theorem priceSwap_sides (h : priceSwap m inputVault outputVault cached = .ok p) :
    inputVault = p.params.tradeDirection.input ∧ outputVault = p.params.tradeDirection.output ∧
      m.poolState.isCreatorFeeOnInput p.params.tradeDirection =
        .ok p.params.isCreatorFeeOnInput := by
  obtain ⟨hparams, -⟩ := priceSwap_spec h
  obtain ⟨hin, hout, hon, -⟩ := PoolState.getSwapParams_spec hparams
  exact ⟨hin, hout, hon⟩

/-- A pricing finds the fees owed in the vaults, and runs on what is there beyond them. -/
theorem priceSwap_reserves (h : priceSwap m inputVault outputVault cached = .ok p) :
    (∀ side, m.owed side ≤ m.vault.get side) ∧
      p.params.totalInputTokenAmount = m.net p.params.tradeDirection.input ∧
      p.params.totalOutputTokenAmount = m.net p.params.tradeDirection.output := by
  obtain ⟨hparams, -⟩ := priceSwap_spec h
  obtain ⟨hin, hout, -, net, price, hnet, -, hx, hy, -⟩ := PoolState.getSwapParams_spec hparams
  have hside := PoolState.vaultAmountWithoutFee_eq_ok.mp hnet
  rw [hx, hy, hin, hout, (hside _).2.2, (hside _).2.2]
  exact ⟨fun side => (hside side).2.1, rfl, rfl⟩

/-- What a quote promises its settlement: a result the curve covers, a payment that
credits exactly the curve's input, and a payout of exactly its output. -/
structure Quoted (m : Market) (env : Env) (inputVault outputVault : TokenSide) (q : SwapQuote)
    (less swapped : Nat) : Prop where
  cached : ∃ cached, m.poolState.cachedOracleQuote = some cached ∧
    priceSwap m inputVault outputVault cached = .ok q.pricing
  covers : q.result.Covers q.pricing.params.isCreatorFeeOnInput
    q.pricing.params.totalOutputTokenAmount q.pricing.spotNum q.pricing.spotDen less swapped
  shares : m.ammConfig.RatesBounded → q.result.protocolFee + q.result.fundFee ≤ q.result.tradeFee
  payment : q.inputTransferAmount ≠ 0
  credits : ∀ user credited,
    arriving (env.mint inputVault) env.clock.epoch user q.inputTransferAmount = .ok credited →
      credited = q.result.inputAmount
  pays : q.outputTransferAmount = q.result.outputAmount

/-- **An exact-in quote.** -/
theorem quoteBaseInput_spec {amountIn minimumAmountOut : Nat}
    (h : quoteBaseInput m env inputVault outputVault amountIn minimumAmountOut = .ok q) :
    ∃ less swapped, Quoted m env inputVault outputVault q less swapped ∧
      runCurve CurveCalculator.swapBaseInput m q.pricing q.result.inputAmount = .ok q.result ∧
      q.inputTransferAmount = amountIn := by
  simp only [quoteBaseInput, bind_eq_ok, require_eq_ok, unwrap_eq_ok, tryFrom_eq_some,
    checkedSub_eq_some, pure_eq_ok] at h
  obtain ⟨cached, hopen, fee, hfee, _, hpos, pricing, hprice, result, hcurve, _, ⟨_, rfl⟩, _,
    hin, _, ⟨_, rfl⟩, outFee, _, _, ⟨_, rfl⟩, _, _, _, _, rfl⟩ := h
  have hle := getTransferFee_le hfee
  obtain ⟨less, swapped, output, _, _, _, _, hR, hcovers⟩ :=
    CurveCalculator.swapBaseInput_spec (noneTo_eq_ok.mp hcurve)
  refine ⟨less, swapped, ⟨⟨cached, (openSwap_eq_ok.mp hopen).1, hprice⟩, hcovers, ?_, ?_, ?_, rfl⟩,
    ?_, rfl⟩
  · intro hrates
    dsimp only
    rw [hR]
    exact SwapResult.of_shares_le hrates.shares
  · dsimp only
    omega
  · intro user credited hc
    rw [arriving_of_fee hfee hc]
    exact hin.symm
  · dsimp only
    rwa [hin]

/-- **An exact-out quote.** -/
theorem quoteBaseOutput_spec {maxAmountIn amountOutReceived : Nat}
    (h : quoteBaseOutput m env inputVault outputVault maxAmountIn amountOutReceived = .ok q) :
    ∃ less swapped, Quoted m env inputVault outputVault q less swapped ∧
      runCurve CurveCalculator.swapBaseOutput m q.pricing q.result.outputAmount = .ok q.result ∧
      q.inputTransferAmount ≤ maxAmountIn := by
  simp only [quoteBaseOutput, bind_eq_ok, require_eq_ok, unwrap_eq_ok, tryFrom_eq_some,
    checkedAdd_eq_some, pure_eq_ok] at h
  obtain ⟨_, _, cached, hopen, outFee, _, _, ⟨_, rfl⟩, pricing, hprice, result, hcurve, _,
    ⟨_, rfl⟩, _, hpos, inFee, hinv, _, ⟨_, rfl⟩, _, hmax, _, ⟨_, rfl⟩, _, hout, rfl⟩ := h
  obtain ⟨less, swapped, input, _, _, _, _, _, hR, hcovers⟩ :=
    CurveCalculator.swapBaseOutput_spec (noneTo_eq_ok.mp hcurve)
  refine ⟨less, swapped, ⟨⟨cached, (openSwap_eq_ok.mp hopen).1, hprice⟩, hcovers, ?_, ?_, ?_, ?_⟩,
    ?_, hmax⟩
  · intro hrates
    dsimp only
    rw [hR]
    exact SwapResult.of_shares_le hrates.shares
  · dsimp only
    omega
  · intro user credited hc
    exact arriving_of_inverse hinv hc
  · exact hout.symm
  · dsimp only
    rwa [hout]

/-! ## Either kind of swap -/

section

variable {a b userAmount : Nat} {toVault : Bool}

/-- A quote by either handler; `a` and `b` are the two amounts it is given. -/
def Quotes (m : Market) (env : Env) (inputVault outputVault : TokenSide) (a b : Nat)
    (q : SwapQuote) : Prop :=
  quoteBaseInput m env inputVault outputVault a b = .ok q ∨
    quoteBaseOutput m env inputVault outputVault a b = .ok q

/-- A successful swap by either handler. -/
def Swaps (m : Market) (env : Env) (inputVault outputVault : TokenSide) (a b userAmount : Nat)
    (toVault : Bool) (m' : Market) (receipt : SwapReceipt) : Prop :=
  swapBaseInput m env inputVault outputVault a b userAmount toVault = .ok (m', receipt) ∨
    swapBaseOutput m env inputVault outputVault a b userAmount toVault = .ok (m', receipt)

theorem Quotes.quoted (h : Quotes m env inputVault outputVault a b q) :
    ∃ less swapped, Quoted m env inputVault outputVault q less swapped := by
  rcases h with h | h
  · obtain ⟨less, swapped, hq, -⟩ := quoteBaseInput_spec h
    exact ⟨less, swapped, hq⟩
  · obtain ⟨less, swapped, hq, -⟩ := quoteBaseOutput_spec h
    exact ⟨less, swapped, hq⟩

theorem Swaps.settles (h : Swaps m env inputVault outputVault a b userAmount toVault m' receipt) :
    ∃ q, Quotes m env inputVault outputVault a b q ∧
      settleSwap m env inputVault outputVault userAmount toVault q = .ok (m', receipt) := by
  rcases h with h | h
  · simp only [swapBaseInput, bind_eq_ok] at h
    obtain ⟨q, hquote, hsettle⟩ := h
    exact ⟨q, .inl hquote, hsettle⟩
  · simp only [swapBaseOutput, bind_eq_ok] at h
    obtain ⟨q, hquote, hsettle⟩ := h
    exact ⟨q, .inr hquote, hsettle⟩

/-- What a swap puts on the curve, its input less its fees. -/
def curveInput (onInput : Bool) (R : SwapResult) : Nat :=
  R.inputAmount - R.tradeFee - (if onInput then R.creatorFee else 0)

/-- What the curve pays for it, fees on the output included. -/
def curveOutput (onInput : Bool) (R : SwapResult) : Nat :=
  R.outputAmount + (if onInput then 0 else R.creatorFee)

theorem covers_curve {R : SwapResult} {onInput : Bool} {y n d less swapped : Nat}
    (h : R.Covers onInput y n d less swapped) :
    curveInput onInput R = less ∧ curveOutput onInput R = swapped := by
  obtain ⟨hin, hout, -, -⟩ := h
  unfold curveInput curveOutput
  exact ⟨by omega, hout.symm⟩

/-- With room in the vault the fees fit into the counters, which the vault covers. -/
theorem Quoted.updateFees_fits (hq : Quoted m env inputVault outputVault q less swapped)
    (hrates : m.ammConfig.RatesBounded) (hvault : ∀ side, m.vault.get side < 2 ^ 64)
    (hroom : m.vault.get inputVault + q.result.inputAmount < 2 ^ 64)
    (henable : m.poolState.enableCreatorFee = true ∨ q.result.creatorFee = 0) :
    ∃ s, m.poolState.updateFees q.result.protocolFee q.result.fundFee q.result.creatorFee
      q.pricing.params.tradeDirection = .ok s := by
  obtain ⟨cached, -, hprice⟩ := hq.cached
  obtain ⟨rfl, rfl, hon⟩ := priceSwap_sides hprice
  obtain ⟨hcovered, -, hreserve⟩ := priceSwap_reserves hprice
  obtain ⟨hin, hout, hleft, -⟩ := hq.covers
  have hshares := hq.shares hrates
  have hcovIn := hcovered q.pricing.params.tradeDirection.input
  have hcovOut := hcovered q.pricing.params.tradeDirection.output
  have hlt := hvault q.pricing.params.tradeDirection.output
  rw [hreserve] at hleft
  unfold Market.net at hleft
  unfold Market.owed PoolState.owed at hcovIn hcovOut hleft
  refine ⟨_, (PoolState.updateFees_eq_ok hon).mpr ⟨henable, by omega, by omega, ?_, rfl⟩⟩
  cases hmode : q.pricing.params.isCreatorFeeOnInput with
  | true =>
    rw [hmode, if_pos rfl] at hin
    simp only [PoolState.creatorFeeSide, if_true]
    omega
  | false =>
    rw [hmode, if_neg Bool.false_ne_true] at hout
    simp only [PoolState.creatorFeeSide, Bool.false_eq_true, if_false]
    omega

/-- A settlement takes the payment. -/
theorem settleSwap_payment
    (h : settleSwap m env inputVault outputVault userAmount toVault q = .ok (m', receipt)) :
    ∃ vaultAmount, transferFromUserToPoolVault (env.mint inputVault) env.clock.epoch userAmount
      (m.vault.get inputVault) q.inputTransferAmount = .ok vaultAmount := by
  simp only [settleSwap, bind_eq_ok] at h
  obtain ⟨_, _, _, _, _, _, _, _, _, _, vaultAmount, hpaid, -⟩ := h
  exact ⟨vaultAmount, hpaid⟩

theorem settleSwap_payout
    (h : settleSwap m env inputVault outputVault userAmount toVault q = .ok (m', receipt)) :
    transferFromPoolVaultToUser (m.vault.get outputVault) q.outputTransferAmount toVault =
      .ok (m'.vault.get outputVault) := by
  simp only [settleSwap, bind_eq_ok, pure_eq_ok, Prod.mk.injEq] at h
  obtain ⟨_, _, _, _, _, _, _, _, _, _, _, _, vaultAmount, hpaid, _, _, rfl, -⟩ := h
  rw [hpaid, PerToken.get_set_self]

/-- The settlement reports what was quoted. -/
theorem settleSwap_result
    (h : settleSwap m env inputVault outputVault userAmount toVault q = .ok (m', receipt)) :
    receipt.result = q.result := by
  simp only [settleSwap, bind_eq_ok, pure_eq_ok, Prod.mk.injEq] at h
  obtain ⟨_, _, _, _, _, _, _, _, _, _, _, _, _, _, _, _, -, rfl⟩ := h
  rfl

/-- The event repeats the skew, both amounts of the curve and the fees on top of them. -/
theorem settleSwap_event
    (h : settleSwap m env inputVault outputVault userAmount toVault q = .ok (m', receipt)) :
    receipt.result = q.result ∧
      receipt.event.inventorySkewBps = q.pricing.quote.inventorySkewBps ∧
      receipt.event.inputAmount = q.result.inputAmount ∧
      receipt.event.outputAmount = q.result.outputAmount ∧
      receipt.event.inputTransferFee = q.inputTransferFee ∧
      receipt.event.outputTransferFee = q.outputTransferFee := by
  simp only [settleSwap, swapEvent, bind_eq_ok, unwrap_eq_ok, tryFrom_eq_some, pure_eq_ok,
    Prod.mk.injEq] at h
  obtain ⟨_, -, _, -, _, -, _, -, _, ⟨_, ⟨-, rfl⟩, _, ⟨-, rfl⟩, _, -, _, -, rfl⟩, _, -, _, -, _, -,
    -, rfl⟩ := h
  exact ⟨rfl, rfl, rfl, rfl, rfl, rfl⟩

/-- What an exact-out quote pays in is the curve's input with the fee on top. -/
theorem quoteBaseOutput_paid {maximum amountOut : Nat}
    (h : quoteBaseOutput m env inputVault outputVault maximum amountOut = .ok q) :
    q.inputTransferAmount = q.result.inputAmount + q.inputTransferFee := by
  simp only [quoteBaseOutput, bind_eq_ok, unwrap_eq_ok, tryFrom_eq_some, checkedAdd_eq_some,
    pure_eq_ok] at h
  obtain ⟨_, -, cached, -, outFee, -, gross, -, pricing, -, result, -, _, ⟨-, rfl⟩, _, -, inFee, -,
    _, ⟨-, rfl⟩, _, -, _, -, _, -, rfl⟩ := h
  rfl

end

/-! ## The ledger after a swap -/

/-- The fields of a pool that prices depend on; everything else blanked. -/
def quoted (s : PoolState) : PoolState :=
  { s with
    status := 0, lpSupply := 0, recentEpoch := 0, oracleKeeper := 0, openTime := 0
    protocolFees := ⟨0, 0⟩, fundFees := ⟨0, 0⟩, creatorFees := ⟨0, 0⟩ }

/-- What a swap in one direction leaves behind. `toVault` says that the payout went back
to the vault. -/
structure SwapEffect (m m' : Market) (direction : TradeDirection) (onInput toVault : Bool)
    (R : SwapResult) : Prop where
  vaultInput : m'.vault.get direction.input = m.vault.get direction.input + R.inputAmount
  vaultInput_lt : m'.vault.get direction.input < 2 ^ 64
  vaultOutput : m'.vault.get direction.output + (if toVault then 0 else R.outputAmount) =
    m.vault.get direction.output
  owedInput : m'.owed direction.input = m.owed direction.input + R.protocolFee + R.fundFee +
    (if onInput then R.creatorFee else 0)
  owedOutput : m'.owed direction.output =
    m.owed direction.output + (if onInput then 0 else R.creatorFee)
  config : m'.ammConfig = m.ammConfig
  supply : m'.poolState.lpSupply = m.poolState.lpSupply
  mint : m'.lpMintSupply = m.lpMintSupply
  quoted : quoted m'.poolState = quoted m.poolState

/-- Fees posted by a swap, per token. -/
theorem owed_updateFees {s s' : PoolState} {direction : TradeDirection} {onInput : Bool}
    {protocolFee fundFee creatorFee : Nat} (epoch : Nat)
    (hon : s.isCreatorFeeOnInput direction = .ok onInput)
    (h : s.updateFees protocolFee fundFee creatorFee direction = .ok s') :
    ({ s' with recentEpoch := epoch } : PoolState).owed direction.input =
        s.owed direction.input + protocolFee + fundFee + (if onInput then creatorFee else 0) ∧
      ({ s' with recentEpoch := epoch } : PoolState).owed direction.output =
        s.owed direction.output + (if onInput then 0 else creatorFee) ∧
      s'.lpSupply = s.lpSupply ∧
      Settlement.quoted { s' with recentEpoch := epoch } = Settlement.quoted s := by
  obtain ⟨_, _, _, _, rfl⟩ := (PoolState.updateFees_eq_ok hon).mp h
  have hne := direction.input_ne_output
  refine ⟨?_, ?_, rfl, rfl⟩
  · cases onInput with
    | true =>
      simp only [PoolState.owed, PoolState.creatorFeeSide, PerToken.get_set, if_true]
      omega
    | false =>
      simp only [PoolState.owed, PoolState.creatorFeeSide, PerToken.get_set, if_true, hne, if_false,
        Bool.false_eq_true]
      omega
  · cases onInput with
    | true =>
      simp only [PoolState.owed, PoolState.creatorFeeSide, PerToken.get_set, if_true, hne.symm,
        if_false]
      omega
    | false =>
      simp only [PoolState.owed, PoolState.creatorFeeSide, PerToken.get_set, if_true, hne.symm,
        if_false, Bool.false_eq_true]
      omega

/-- **Settling a quote.** -/
theorem settleSwap_spec {userAmount : Nat} {toVault : Bool}
    (hv : ∀ side, m.vault.get side < 2 ^ 64)
    (hq : Quoted m env inputVault outputVault q less swapped)
    (h : settleSwap m env inputVault outputVault userAmount toVault q = .ok (m', receipt)) :
    inputVault = q.pricing.params.tradeDirection.input ∧
    outputVault = q.pricing.params.tradeDirection.output ∧
    SwapEffect m m' q.pricing.params.tradeDirection q.pricing.params.isCreatorFeeOnInput toVault
      q.result ∧
    receipt.result = q.result := by
  obtain ⟨cached, -, hprice⟩ := hq.cached
  obtain ⟨rfl, rfl, hon⟩ := priceSwap_sides hprice
  simp only [settleSwap, bind_eq_ok, unwrap_eq_ok, tryFrom_eq_some, pure_eq_ok,
    Prod.mk.injEq] at h
  obtain ⟨_, ⟨_, rfl⟩, _, ⟨_, rfl⟩, _, ⟨_, rfl⟩, poolState, hfees, event, _, vin, hvin, vout, hvout,
    obs, _, rfl, rfl⟩ := h
  have hne := q.pricing.params.tradeDirection.input_ne_output
  obtain ⟨credited, hcredit, h64, rfl⟩ := transferFromUserToPoolVault_spec (hv _) hvin
  obtain rfl : credited = q.result.inputAmount := by
    rcases hcredit with ⟨h0, _⟩ | ⟨_, hc⟩
    · exact absurd h0 hq.payment
    · exact hq.credits _ _ hc
  obtain ⟨_, hvout⟩ := transferFromPoolVaultToUser_eq_ok.mp hvout
  rw [hq.pays] at hvout
  obtain ⟨ho, ho', hs, hquoted⟩ := owed_updateFees env.clock.epoch hon hfees
  refine ⟨rfl, rfl, ⟨?_, ?_, ?_, ho, ho', rfl, hs, rfl, hquoted⟩, rfl⟩
  · simp [PerToken.get_set, hne]
  · simpa [PerToken.get_set, hne] using h64
  · simpa using hvout

end NomadAmm.Soundness.Settlement

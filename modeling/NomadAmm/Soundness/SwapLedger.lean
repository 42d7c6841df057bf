import NomadAmm.Program
import NomadAmm.Soundness.Settlement

/-! The books of one swap, to the unit: what each net reserve gains or loses, which counter
each fee is credited to, and that no fee exceeds what it is taken from. Both handlers, both
directions and all creator-fee modes post alike. -/

namespace NomadAmm.Soundness.SwapLedger

open Lib.Checked Lib.Rounding Exec Instructions Soundness.Settlement

variable {m m' : Market} {env : Env} {inputVault outputVault : TokenSide} {q : SwapQuote}
  {receipt : SwapReceipt} {a b userAmount : Nat} {toVault onInput : Bool}
  {direction : TradeDirection}

/-- The token a creator-fee mode names for a direction. -/
def creatorFeeToken (mode : CreatorFeeOn) (direction : TradeDirection) : TokenSide :=
  match mode with
  | .bothToken => direction.input
  | .onlyToken0 => .token0
  | .onlyToken1 => .token1

/-- The fee is charged on the input exactly where the mode names the input token. -/
theorem creatorFeeSide_eq {s : PoolState} (h : s.isCreatorFeeOnInput direction = .ok onInput) :
    ∃ mode, CreatorFeeOn.fromU8 s.creatorFeeOn = .ok mode ∧
      PoolState.creatorFeeSide onInput direction = creatorFeeToken mode direction := by
  simp only [PoolState.isCreatorFeeOnInput, bind_eq_ok] at h
  obtain ⟨mode, hmode, h⟩ := h
  refine ⟨mode, hmode, ?_⟩
  cases mode <;> cases direction <;> cases h <;> rfl

/-! ## A disabled creator fee -/

/-- Without a creator rate there is no creator fee, on either side of either path. -/
theorem swapBaseInput_creatorFee {x y t p f n d input : Nat} {R : SwapResult}
    (h : CurveCalculator.swapBaseInput input x y t 0 p f onInput n d = .ok R) :
    R.creatorFee = 0 := by
  obtain ⟨less, swapped, output, -, -, -, hout, rfl, -⟩ := CurveCalculator.swapBaseInput_spec h
  cases onInput with
  | true => simp [SwapResult.of]
  | false =>
    have hzero : ceilDiv 0 feeRateDenominatorValue = 0 := by decide
    simp only [outputFeeRate, Bool.false_eq_true, if_false, Nat.mul_zero, hzero] at hout
    simp [SwapResult.of, hout]

theorem swapBaseOutput_creatorFee {x y t p f n d output : Nat} {R : SwapResult}
    (h : CurveCalculator.swapBaseOutput output x y t 0 p f onInput n d = .ok R) :
    R.creatorFee = 0 := by
  obtain ⟨less, swapped, input, -, -, hswapped, -, -, rfl, -⟩ :=
    CurveCalculator.swapBaseOutput_spec h
  cases onInput with
  | true => simp [SwapResult.of]
  | false =>
    simp only [outputFeeRate, Bool.false_eq_true, if_false,
      grossUp_zero feeRateDenominatorValue_pos] at hswapped
    simp [SwapResult.of, hswapped]

theorem quote_creatorFee (h : Quotes m env inputVault outputVault a b q)
    (hoff : m.poolState.enableCreatorFee = false) : q.result.creatorFee = 0 := by
  obtain ⟨less, swapped, hq⟩ := h.quoted
  obtain ⟨cached, -, hprice⟩ := hq.cached
  obtain ⟨-, -, -, -, -, hrate⟩ := priceSwap_spec hprice
  have hzero : q.pricing.creatorFeeRate = 0 := by
    rw [hrate, PoolState.adjustCreatorFeeRate, hoff]
    rfl
  rcases h with h | h
  · obtain ⟨-, -, -, hcurve, -⟩ := quoteBaseInput_spec h
    rw [runCurve, hzero] at hcurve
    exact swapBaseInput_creatorFee (noneTo_eq_ok.mp hcurve)
  · obtain ⟨-, -, -, hcurve, -⟩ := quoteBaseOutput_spec h
    rw [runCurve, hzero] at hcurve
    exact swapBaseOutput_creatorFee (noneTo_eq_ok.mp hcurve)

/-- The check of `update_fees` on the creator fee is always met. -/
theorem quote_flag (h : Quotes m env inputVault outputVault a b q) :
    m.poolState.enableCreatorFee = true ∨ q.result.creatorFee = 0 := by
  cases hoff : m.poolState.enableCreatorFee with
  | true => exact .inl rfl
  | false => exact .inr (quote_creatorFee h hoff)

theorem addFee_ok_or_panic (fees : PerToken Nat) (side : TokenSide) (fee : Nat) :
    (∃ fees', PoolState.addFee fees side fee = .ok fees') ∨
      PoolState.addFee fees side fee = .error .panic := by
  unfold PoolState.addFee
  cases checkedAdd 64 (fees.get side) fee with
  | none => exact .inr rfl
  | some total => exact .inl ⟨_, rfl⟩

/-- Past that check only a counter that overflows is left to fail. -/
theorem updateFees_error {s : PoolState} {protocolFee fundFee creatorFee : Nat} {e : Fault}
    (hon : s.isCreatorFeeOnInput direction = .ok onInput)
    (hflag : s.enableCreatorFee = true ∨ creatorFee = 0)
    (h : s.updateFees protocolFee fundFee creatorFee direction = .error e) : e = .panic := by
  simp only [PoolState.updateFees, require_pos hflag, ok_bind, hon] at h
  rcases addFee_ok_or_panic s.protocolFees direction.input protocolFee with ⟨_, hp⟩ | hp
  · rcases addFee_ok_or_panic s.fundFees direction.input fundFee with ⟨_, hf⟩ | hf
    · rcases addFee_ok_or_panic s.creatorFees
        (if onInput then direction.input else direction.output) creatorFee with ⟨_, hc⟩ | hc
      · simp only [hp, hf, hc, ok_bind] at h
        cases h
      · simp only [hp, hf, hc, ok_bind, error_bind] at h
        cases h
        rfl
    · simp only [hp, hf, ok_bind, error_bind] at h
      cases h
      rfl
  · simp only [hp, error_bind] at h
    cases h
    rfl

/-! ## The books -/

/-- What a quote finds in the vaults: the fees owed are covered, and the curve pays less
than the output vault holds beyond them. -/
structure Backed (m : Market) (direction : TradeDirection) (onInput : Bool) (R : SwapResult) :
    Prop where
  covered : ∀ side, m.owed side ≤ m.vault.get side
  shares : R.protocolFee + R.fundFee ≤ R.tradeFee
  inputFees : R.tradeFee + (if onInput then R.creatorFee else 0) ≤ R.inputAmount
  curveOutput : curveOutput onInput R < m.net direction.output

/-- A quote names its direction by its vaults. -/
theorem quote_direction (h : Quotes m env inputVault outputVault a b q) :
    inputVault = q.pricing.params.tradeDirection.input ∧
      outputVault = q.pricing.params.tradeDirection.output ∧
      m.poolState.isCreatorFeeOnInput q.pricing.params.tradeDirection =
        .ok q.pricing.params.isCreatorFeeOnInput := by
  obtain ⟨less, swapped, hq⟩ := h.quoted
  obtain ⟨cached, -, hprice⟩ := hq.cached
  exact priceSwap_sides hprice

theorem quote_backed (hconfig : m.ammConfig.Reachable)
    (h : Quotes m env inputVault outputVault a b q) :
    Backed m q.pricing.params.tradeDirection q.pricing.params.isCreatorFeeOnInput q.result := by
  obtain ⟨less, swapped, hq⟩ := h.quoted
  obtain ⟨cached, -, hprice⟩ := hq.cached
  obtain ⟨hcovered, -, hreserve⟩ := priceSwap_reserves hprice
  obtain ⟨hless, hswapped⟩ := covers_curve hq.covers
  refine ⟨hcovered, hq.shares hconfig.ratesBounded, ?_, ?_⟩
  · have hinput := hq.covers.input
    omega
  · have hbounded := hq.covers.bounded
    rw [hreserve] at hbounded
    rw [hswapped]
    exact hbounded

/-- Fees that a swap posts fit their counters, when its payment fits its vault. -/
theorem quote_updateFees (hconfig : m.ammConfig.Reachable)
    (hvault : ∀ side, m.vault.get side < 2 ^ 64)
    (h : Quotes m env inputVault outputVault a b q)
    (hroom : m.vault.get inputVault + q.result.inputAmount < 2 ^ 64) :
    ∃ s, m.poolState.updateFees q.result.protocolFee q.result.fundFee q.result.creatorFee
      q.pricing.params.tradeDirection = .ok s := by
  obtain ⟨less, swapped, hq⟩ := h.quoted
  exact hq.updateFees_fits hconfig.ratesBounded hvault hroom (quote_flag h)

/-- The entries of a swap. Every credit and debit is in whole units, and none is missing. -/
structure Posted (m m' : Market) (direction : TradeDirection) (mode : CreatorFeeOn)
    (onInput : Bool) (R : SwapResult) : Prop where
  coveredAfter : ∀ side, m'.owed side ≤ m'.vault.get side
  netInput : m'.net direction.input + R.protocolFee + R.fundFee +
    (if onInput then R.creatorFee else 0) = m.net direction.input + R.inputAmount
  netOutput : m'.net direction.output + R.outputAmount + (if onInput then 0 else R.creatorFee) =
    m.net direction.output
  protocolFees : m'.poolState.protocolFees = m.poolState.protocolFees.set direction.input
    (m.poolState.protocolFees.get direction.input + R.protocolFee)
  fundFees : m'.poolState.fundFees = m.poolState.fundFees.set direction.input
    (m.poolState.fundFees.get direction.input + R.fundFee)
  creatorFees : m'.poolState.creatorFees =
    m.poolState.creatorFees.set (creatorFeeToken mode direction)
      (m.poolState.creatorFees.get (creatorFeeToken mode direction) + R.creatorFee)

/-- The counters after a settlement are those `update_fees` returns. -/
theorem settleSwap_counters
    (h : settleSwap m env inputVault outputVault userAmount toVault q = .ok (m', receipt)) :
    ∃ s, m.poolState.updateFees q.result.protocolFee q.result.fundFee q.result.creatorFee
        q.pricing.params.tradeDirection = .ok s ∧
      m'.poolState.protocolFees = s.protocolFees ∧ m'.poolState.fundFees = s.fundFees ∧
      m'.poolState.creatorFees = s.creatorFees := by
  simp only [settleSwap, bind_eq_ok, unwrap_eq_ok, tryFrom_eq_some, pure_eq_ok,
    Prod.mk.injEq] at h
  obtain ⟨_, ⟨_, rfl⟩, _, ⟨_, rfl⟩, _, ⟨_, rfl⟩, s, hfees, _, _, _, _, _, _, _, _, rfl, -⟩ := h
  exact ⟨s, hfees, rfl, rfl, rfl⟩

theorem posted_of_effect {R : SwapResult} {mode : CreatorFeeOn} {s : PoolState}
    (hon : m.poolState.isCreatorFeeOnInput direction = .ok onInput)
    (hmode : PoolState.creatorFeeSide onInput direction = creatorFeeToken mode direction)
    (hb : Backed m direction onInput R) (heffect : SwapEffect m m' direction onInput false R)
    (hfees : m.poolState.updateFees R.protocolFee R.fundFee R.creatorFee direction = .ok s)
    (hcounters : m'.poolState.protocolFees = s.protocolFees ∧
      m'.poolState.fundFees = s.fundFees ∧ m'.poolState.creatorFees = s.creatorFees) :
    Posted m m' direction mode onInput R := by
  obtain ⟨-, -, -, -, rfl⟩ := (PoolState.updateFees_eq_ok hon).mp hfees
  obtain ⟨hprotocol, hfund, hcreator⟩ := hcounters
  rw [hmode] at hcreator
  have hvin := heffect.vaultInput
  have hvout := heffect.vaultOutput
  have hoin := heffect.owedInput
  have hoout := heffect.owedOutput
  have hcin := hb.covered direction.input
  have hcout := hb.covered direction.output
  have hshares := hb.shares
  have hinput := hb.inputFees
  have houtput := hb.curveOutput
  simp only [Bool.false_eq_true, if_false] at hvout
  unfold curveOutput Market.net at houtput
  refine ⟨?_, ?_, ?_, hprotocol, hfund, hcreator⟩
  · intro side
    rcases direction.eq_input_or_output side with rfl | rfl
    · omega
    · omega
  · unfold Market.net
    omega
  · unfold Market.net
    omega

/-- **The exact ledger of a swap.** A swap by either handler posts its result to the unit,
into the counter its creator-fee mode names; a pool with the creator fee disabled charges
none, and fees are never what a swap is rejected for. -/
theorem swap_ledger (m : Market) (hvault : ∀ side, m.vault.get side < 2 ^ 64) (env : Env)
    (inputVault outputVault : TokenSide) (a b : Nat) :
    (m.ammConfig.Reachable → ∀ userAmount m' receipt,
      Swaps m env inputVault outputVault a b userAmount false m' receipt →
      ∃ direction mode onInput, inputVault = direction.input ∧ outputVault = direction.output ∧
        CreatorFeeOn.fromU8 m.poolState.creatorFeeOn = .ok mode ∧
        m.poolState.isCreatorFeeOnInput direction = .ok onInput ∧
        (if onInput then direction.input else direction.output) = creatorFeeToken mode direction ∧
        Backed m direction onInput receipt.result ∧
        Posted m m' direction mode onInput receipt.result ∧
        (m.poolState.enableCreatorFee = false → receipt.result.creatorFee = 0)) ∧
    (∀ q, Quotes m env inputVault outputVault a b q →
      (m.poolState.enableCreatorFee = false → q.result.creatorFee = 0) ∧
      m.poolState.updateFees q.result.protocolFee q.result.fundFee q.result.creatorFee
        q.pricing.params.tradeDirection ≠ .error (.anchor .requireEqViolated) ∧
      (m.ammConfig.Reachable → m.vault.get inputVault + q.result.inputAmount < 2 ^ 64 →
        ∃ s, m.poolState.updateFees q.result.protocolFee q.result.fundFee q.result.creatorFee
          q.pricing.params.tradeDirection = .ok s)) := by
  constructor
  · intro hconfig userAmount m' receipt h
    obtain ⟨q, hquotes, hsettle⟩ := h.settles
    obtain ⟨less, swapped, hq⟩ := hquotes.quoted
    obtain ⟨hin, hout, hon⟩ := quote_direction hquotes
    have hb := quote_backed hconfig hquotes
    obtain ⟨-, -, heffect, hresult⟩ := settleSwap_spec hvault hq hsettle
    obtain ⟨s, hfees, hcounters⟩ := settleSwap_counters hsettle
    obtain ⟨mode, hmode, hside⟩ := creatorFeeSide_eq hon
    rw [hresult]
    exact ⟨_, mode, _, hin, hout, hmode, hon, hside, hb,
      posted_of_effect hon hside hb heffect hfees hcounters, quote_creatorFee hquotes⟩
  · intro q hquotes
    obtain ⟨-, -, hon⟩ := quote_direction hquotes
    refine ⟨quote_creatorFee hquotes, ?_, ?_⟩
    · intro hrejected
      cases updateFees_error hon (quote_flag hquotes) hrejected
    · intro hconfig hroom
      exact quote_updateFees hconfig hvault hquotes hroom

/-- Token_0 sold into the pool, its creator fee on the input. -/
theorem swap_ledger_examplePool :
    let m := Lib.Transition.replay Market.step examplePool [examplePush 99900000 100100000 0]
    ∃ m' receipt direction mode onInput,
      Instructions.swapBaseInput m (exampleEnv 1100) .token0 .token1 1000000 0 1000000 false =
        .ok (m', receipt) ∧ Posted m m' direction mode onInput receipt.result := by
  intro m
  obtain ⟨⟨m', receipt⟩, h⟩ := exists_of_isOk (show (Instructions.swapBaseInput m (exampleEnv 1100)
    .token0 .token1 1000000 0 1000000 false).toOption.isSome = true by decide +kernel)
  have hvault : ∀ side, m.vault.get side < 2 ^ 64 := by
    intro side
    cases side <;> decide +kernel
  obtain ⟨direction, mode, onInput, -, -, -, -, -, -, hposted, -⟩ :=
    (swap_ledger m hvault (exampleEnv 1100) .token0 .token1 1000000 0).1 exampleConfig_reachable
      1000000 m' receipt (.inl h)
  exact ⟨m', receipt, direction, mode, onInput, h, hposted⟩

end NomadAmm.Soundness.SwapLedger

import NomadAmm.Soundness.Legs
import NomadAmm.Soundness.Skew

/-! Into a pool and straight back out. Both legs are priced at the skewed quote of the
state they find, and the first leg moves the inventory that skews the second. The round
trip costs the trader as long as the bid one leg is paid and the ask the other pays do
not cross by more than the fees of both legs; where they do, it need not. -/

namespace NomadAmm.Soundness.RoundTrip

open Lib.Rounding Lib.Transition Lib.Checked Exec Instructions
open Soundness.Settlement Soundness.Ledger Soundness.Solvency Soundness.ShareValue
open Soundness.Legs Soundness.Skew

variable {m m' : Market} {direction : TradeDirection} {onInput : Bool}

/-- The cached quote skewed by the inventory of the state. -/
def currentQuote (m : Market) : Exec SkewedQuote := do
  let (bid, ask, exponent) ← okOr .oracleNotInitialized m.poolState.cachedOracleQuote
  m.poolState.skewedQuote ⟨.zeroForOne, m.net .token0, m.net .token1, 0, 0, true⟩ bid ask exponent

theorem currentQuote_of_price {cached : Int × Int × Int} {p : Pricing}
    (hcached : m.poolState.cachedOracleQuote = some cached)
    (hprice : priceSwap m direction.input direction.output cached = .ok p) :
    currentQuote m = .ok p.quote := by
  simp only [currentQuote, hcached, okOr, bind, Except.bind]
  exact effectiveQuote_of_price hprice

/-- The factor between a mantissa and its raw fraction. -/
def rawScale (s : PoolState) : Nat × Nat :=
  let exponent : Int := s.priceExponent + s.mint1Decimals - s.mint0Decimals
  if 0 ≤ exponent then (10 ^ exponent.toNat, 1) else (1, 10 ^ (-exponent).toNat)

theorem rawScale_pos (s : PoolState) : 0 < (rawScale s).1 ∧ 0 < (rawScale s).2 := by
  unfold rawScale
  dsimp only
  split
  · exact ⟨by positivity, Nat.one_pos⟩
  · exact ⟨Nat.one_pos, by positivity⟩

/-- **Raw fractions are proportional to their mantissas.** -/
theorem rawPrice_eq {s : PoolState} {mantissa : Int} {n d : Nat}
    (h : s.rawPrice mantissa = some (n, d)) :
    0 < mantissa ∧ n = mantissa.toNat * (rawScale s).1 ∧ d = (rawScale s).2 := by
  obtain ⟨hpos, h⟩ := pythPriceToRawFraction_eq_some.mp h
  refine ⟨hpos, ?_⟩
  unfold rawScale
  dsimp only
  split at h
  · next hexp =>
    obtain ⟨_, _, rfl, rfl⟩ := h
    rw [if_pos hexp]
    exact ⟨rfl, rfl⟩
  · next hexp =>
    obtain ⟨_, rfl, rfl⟩ := h
    rw [if_neg hexp]
    exact ⟨(Nat.mul_one _).symm, rfl⟩

/-! ## Two legs -/

/-- What the fees of one leg leave, in the square of the denominator. -/
def retained (m : Market) (onInput : Bool) : Nat :=
  (feeRateDenominatorValue - inputRate m onInput) *
    (feeRateDenominatorValue - outputRate m onInput)

theorem retained_congr (hpool : quoted m'.poolState = quoted m.poolState)
    (hconfig : m'.ammConfig = m.ammConfig) (onInput : Bool) :
    retained m' onInput = retained m onInput := by
  obtain ⟨hin, hout⟩ := rates_congr hpool hconfig onInput
  unfold retained
  rw [hin, hout]

/-- What a leg delivers, from what was paid into it. -/
theorem leg_delivers {amount n d less swapped : Nat} {R : SwapResult}
    (h : Leg m direction onInput amount n d R less swapped) :
    R.outputAmount * d * feeRateDenominatorValue ^ 2 ≤ amount * n * retained m onInput := by
  have hless := lessFee_mul_le feeRateDenominatorValue (inputRate m onInput) amount
  rw [← h.charged] at hless
  unfold retained
  calc R.outputAmount * d * feeRateDenominatorValue ^ 2
      = R.outputAmount * feeRateDenominatorValue * d * feeRateDenominatorValue := by ring
    _ ≤ swapped * (feeRateDenominatorValue - outputRate m onInput) * d *
          feeRateDenominatorValue :=
        Nat.mul_le_mul_right _ (Nat.mul_le_mul_right _ h.output)
    _ = swapped * d * (feeRateDenominatorValue - outputRate m onInput) *
          feeRateDenominatorValue := by ring
    _ ≤ less * n * (feeRateDenominatorValue - outputRate m onInput) * feeRateDenominatorValue :=
        Nat.mul_le_mul_right _ (Nat.mul_le_mul_right _ h.spot)
    _ = less * feeRateDenominatorValue * n *
          (feeRateDenominatorValue - outputRate m onInput) := by ring
    _ ≤ amount * (feeRateDenominatorValue - inputRate m onInput) * n *
          (feeRateDenominatorValue - outputRate m onInput) :=
        Nat.mul_le_mul_right _ (Nat.mul_le_mul_right _ hless)
    _ = _ := by ring

/-- Two legs in a row return no more than was paid in, at prices that multiply to no more
than the fees leave. -/
theorem legs_le {a b back n₁ d₁ n₂ d₂ k₁ k₂ D : Nat} (hd₁ : 0 < d₁) (hd₂ : 0 < d₂) (hD : 0 < D)
    (h₁ : b * d₁ * D ^ 2 ≤ a * n₁ * k₁) (h₂ : back * d₂ * D ^ 2 ≤ b * n₂ * k₂)
    (hprice : n₁ * n₂ * (k₁ * k₂) ≤ d₁ * d₂ * D ^ 4) : back ≤ a := by
  have hpos : 0 < d₁ * d₂ * D ^ 4 := by positivity
  refine Nat.le_of_mul_le_mul_right ?_ hpos
  calc back * (d₁ * d₂ * D ^ 4) = back * d₂ * D ^ 2 * (d₁ * D ^ 2) := by ring
    _ ≤ b * n₂ * k₂ * (d₁ * D ^ 2) := Nat.mul_le_mul_right _ h₂
    _ = b * d₁ * D ^ 2 * (n₂ * k₂) := by ring
    _ ≤ a * n₁ * k₁ * (n₂ * k₂) := Nat.mul_le_mul_right _ h₁
    _ = a * (n₁ * n₂ * (k₁ * k₂)) := by ring
    _ ≤ a * (d₁ * d₂ * D ^ 4) := Nat.mul_le_mul_left _ hprice

/-- A leg with its price in mantissas: the bid for token_0 sold, the ask for token_0
bought. -/
theorem leg_spec {env : Env} {amount minimum user : Nat} {toVault : Bool} {receipt : SwapReceipt}
    {quote : SkewedQuote} (hm : Sound m) (hfree : FeeFree (env.mint direction.input))
    (hon : m.poolState.isCreatorFeeOnInput direction = .ok onInput)
    (hquote : currentQuote m = .ok quote)
    (h : Instructions.swapBaseInput m env direction.input direction.output amount minimum user
      toVault = .ok (m', receipt)) :
    0 < quote.effectiveMantissa direction ∧
      (∃ n d, direction.orient ((quote.effectiveMantissa direction).toNat *
          (rawScale m.poolState).1, (rawScale m.poolState).2) = (n, d) ∧
        receipt.result.outputAmount * d * feeRateDenominatorValue ^ 2 ≤
          amount * n * retained m onInput) ∧
      Sound m' ∧ quoted m'.poolState = quoted m.poolState ∧ m'.ammConfig = m.ammConfig := by
  obtain ⟨cached, p, less, swapped, hcached, hprice, hleg, hm', hpool, hconfig⟩ :=
    swapBaseInput_leg hm hfree hon h
  obtain rfl := Except.ok.inj (hquote.symm.trans (currentQuote_of_price hcached hprice))
  obtain ⟨-, -, -, ⟨canonical, hcanonical, horient⟩, -⟩ := priceSwap_spec hprice
  obtain ⟨hside, -⟩ := priceSwap_sides hprice
  rw [← TradeDirection.eq_of_input_eq hside] at hcanonical horient
  obtain ⟨-, -, -, hexp⟩ := PoolState.cachedOracleQuote_eq_some.mp hcached
  rw [hexp] at hcanonical
  obtain ⟨hpos, hn, hd⟩ := rawPrice_eq hcanonical
  refine ⟨hpos, ⟨p.spotNum, p.spotDen, ?_, leg_delivers hleg⟩, hm', hpool, hconfig⟩
  rw [← horient, ← hn, ← hd]

/-- The bid of the leg that sells token_0 and the ask of the leg that buys it. -/
def legQuotes (direction : TradeDirection) (first second : SkewedQuote) : Int × Int :=
  match direction with
  | .zeroForOne => (first.bidMantissa, second.askMantissa)
  | .oneForZero => (second.bidMantissa, first.askMantissa)

/-- The two legs' quotes do not cross by more than their fees. -/
def Uncrossed (m : Market) (onInput₁ onInput₂ : Bool) (quotes : Int × Int) : Prop :=
  quotes.1 * (retained m onInput₁ * retained m onInput₂ : Nat) ≤
    quotes.2 * (feeRateDenominatorValue ^ 4 : Nat)

theorem uncrossed_toNat {onInput₁ onInput₂ : Bool} {bid ask : Int} (hbid : 0 ≤ bid)
    (hask : 0 ≤ ask) (h : Uncrossed m onInput₁ onInput₂ (bid, ask)) :
    bid.toNat * (retained m onInput₁ * retained m onInput₂) ≤
      ask.toNat * feeRateDenominatorValue ^ 4 := by
  obtain ⟨b, rfl⟩ := Int.eq_ofNat_of_zero_le hbid
  obtain ⟨a, rfl⟩ := Int.eq_ofNat_of_zero_le hask
  simp only [Uncrossed] at h
  simp only [Int.toNat_natCast]
  exact_mod_cast h

/-- The scale of raw fractions cancels between the legs. -/
theorem crossed_scale {bid ask k D f g : Nat} (h : bid * k ≤ ask * D ^ 4) :
    bid * f * g * k ≤ g * (ask * f) * D ^ 4 := by
  calc bid * f * g * k = bid * k * (f * g) := by ring
    _ ≤ ask * D ^ 4 * (f * g) := Nat.mul_le_mul_right _ h
    _ = g * (ask * f) * D ^ 4 := by ring

/-! ## When the skew stays -/

/-- A skewed quote is the cached one, both sides shifted by its skew. -/
theorem currentQuote_shift {quote : SkewedQuote} (h : currentQuote m = .ok quote) :
    0 < m.poolState.effectiveBidMantissa ∧
      shiftMantissaBySignedBps m.poolState.effectiveBidMantissa quote.inventorySkewBps =
        some quote.bidMantissa ∧
      shiftMantissaBySignedBps m.poolState.effectiveAskMantissa quote.inventorySkewBps =
        some quote.askMantissa := by
  simp only [currentQuote, bind_eq_ok, okOr_eq_ok] at h
  obtain ⟨⟨bid, ask, exponent⟩, hcached, h⟩ := h
  obtain ⟨⟨hpos, -⟩, rfl, rfl, rfl⟩ := PoolState.cachedOracleQuote_eq_some.mp hcached
  have hs := effectiveQuote_spec h
  exact ⟨hpos, hs.shiftedBid, hs.shiftedAsk⟩

theorem mantissas_congr (hpool : quoted m'.poolState = quoted m.poolState) :
    m'.poolState.effectiveBidMantissa = m.poolState.effectiveBidMantissa ∧
      m'.poolState.effectiveAskMantissa = m.poolState.effectiveAskMantissa := by
  have hbid := congrArg PoolState.effectiveBidMantissa hpool
  have hask := congrArg PoolState.effectiveAskMantissa hpool
  exact ⟨hbid, hask⟩

/-- No call leaves a cached bid above the cached ask. -/
theorem effect_quoteOrdered {op : Op}
    (hm : m.poolState.effectiveBidMantissa ≤ m.poolState.effectiveAskMantissa)
    (h : Effect m op m') :
    m'.poolState.effectiveBidMantissa ≤ m'.poolState.effectiveAskMantissa := by
  cases hpush : isPush op with
  | false =>
    obtain ⟨hbid, hask⟩ := mantissas_congr (effect_quoted hpush h)
    rw [hbid, hask]
    exact hm
  | true =>
    cases h with
    | updatePoolOracle _ hle _ => exact hle
    | collect _ _ hop _ => cases op <;> cases hop <;> cases hpush
    | _ => cases hpush

theorem reachable_quoteOrdered (h : m.Reachable) :
    m.poolState.effectiveBidMantissa ≤ m.poolState.effectiveAskMantissa := by
  obtain ⟨m₀, calls, hinit, rfl⟩ := h
  obtain ⟨c, -, hopen⟩ := initial_opened hinit
  have hrun : Sound (replay Market.step m₀ calls) ∧ _ ≤ _ :=
    replay_invariant (I := fun m : Market => Sound m ∧
        m.poolState.effectiveBidMantissa ≤ m.poolState.effectiveAskMantissa)
      (fun _ _ _ _ hm h => ⟨step_sound hm.1 h, effect_quoteOrdered hm.2 (step_effect hm.1 h)⟩)
      calls ⟨initial_sound hinit, by rw [hopen.unquoted.1, hopen.unquoted.2.1]⟩
  exact hrun.2

theorem retained_le (m : Market) (onInput : Bool) :
    retained m onInput ≤ feeRateDenominatorValue ^ 2 := by
  unfold retained
  rw [Nat.pow_two]
  exact Nat.mul_le_mul (Nat.sub_le _ _) (Nat.sub_le _ _)

/-- **Quotes cross by a move of the skew only.** -/
theorem uncrossed_of_same_skew {m₁ : Market} {quote₁ quote₂ : SkewedQuote} (hm : m.Reachable)
    (hpool : quoted m₁.poolState = quoted m.poolState) (hquote₁ : currentQuote m = .ok quote₁)
    (hquote₂ : currentQuote m₁ = .ok quote₂)
    (hsame : quote₁.inventorySkewBps = quote₂.inventorySkewBps) (onInput₁ onInput₂ : Bool)
    (direction : TradeDirection) :
    Uncrossed m onInput₁ onInput₂ (legQuotes direction quote₁ quote₂) := by
  have hordered := reachable_quoteOrdered hm
  obtain ⟨hbid, hask⟩ := mantissas_congr hpool
  obtain ⟨hpos, hbid₁, hask₁⟩ := currentQuote_shift hquote₁
  obtain ⟨-, hbid₂, hask₂⟩ := currentQuote_shift hquote₂
  rw [hbid, ← hsame] at hbid₂
  rw [hask, ← hsame] at hask₂
  have hpos₁ := shiftMantissa_pos hpos hbid₁
  have hpos₂ := shiftMantissa_pos hpos hbid₂
  have hfees : retained m onInput₁ * retained m onInput₂ ≤ feeRateDenominatorValue ^ 4 := by
    calc retained m onInput₁ * retained m onInput₂
        ≤ feeRateDenominatorValue ^ 2 * feeRateDenominatorValue ^ 2 :=
          Nat.mul_le_mul (retained_le m onInput₁) (retained_le m onInput₂)
      _ = feeRateDenominatorValue ^ 4 := by ring
  have hscaled : ∀ {bid ask : Int}, 0 < bid → bid ≤ ask →
      Uncrossed m onInput₁ onInput₂ (bid, ask) := fun hbid hle =>
    Int.mul_le_mul hle (Int.ofNat_le.mpr hfees) (Int.natCast_nonneg _) (hbid.le.trans hle)
  cases direction with
  | zeroForOne => exact hscaled hpos₁ (shiftMantissa_mono hordered hbid₁ hask₂)
  | oneForZero => exact hscaled hpos₂ (shiftMantissa_mono hordered hbid₂ hask₁)

/-! ## The round trip -/

/-- **A round trip whose quotes do not cross costs the trader.** In a reachable pool, with
or without skew, selling `a` of a token and selling the proceeds back returns at most
`a`, if both legs find the same skew or quotes that do not cross by more than the fees. -/
theorem roundTrip_le (m m₁ m₂ : Market) (hm : m.Reachable) (direction : TradeDirection)
    (onInput₁ onInput₂ : Bool) (hon₁ : m.poolState.isCreatorFeeOnInput direction = .ok onInput₁)
    (hon₂ : m.poolState.isCreatorFeeOnInput direction.opposite = .ok onInput₂) (env₁ env₂ : Env)
    (hfree₁ : FeeFree (env₁.mint direction.input)) (hfree₂ : FeeFree (env₂.mint direction.output))
    (a minimum₁ minimum₂ user₁ user₂ : Nat) (toVault₁ toVault₂ : Bool) (R₁ R₂ : SwapReceipt)
    (h₁ : Instructions.swapBaseInput m env₁ direction.input direction.output a minimum₁ user₁
      toVault₁ = .ok (m₁, R₁))
    (h₂ : Instructions.swapBaseInput m₁ env₂ direction.output direction.input
      R₁.result.outputAmount minimum₂ user₂ toVault₂ = .ok (m₂, R₂))
    (quote₁ quote₂ : SkewedQuote) (hquote₁ : currentQuote m = .ok quote₁)
    (hquote₂ : currentQuote m₁ = .ok quote₂)
    (hquotes : quote₁.inventorySkewBps = quote₂.inventorySkewBps ∨
      Uncrossed m onInput₁ onInput₂ (legQuotes direction quote₁ quote₂)) :
    R₂.result.outputAmount ≤ a := by
  obtain ⟨hpos₁, ⟨n₁, d₁, hspot₁, hleg₁⟩, hm₁, hpool, hconfig⟩ :=
    leg_spec (reachable_sound hm) hfree₁ hon₁ hquote₁ h₁
  have huncrossed : Uncrossed m onInput₁ onInput₂ (legQuotes direction quote₁ quote₂) := by
    rcases hquotes with hsame | huncrossed
    · exact uncrossed_of_same_skew hm hpool hquote₁ hquote₂ hsame _ _ _
    · exact huncrossed
  have hon₂' := (congrArg (fun s => s.isCreatorFeeOnInput direction.opposite) hpool).trans hon₂
  rw [← direction.input_opposite, ← direction.output_opposite] at h₂
  rw [← direction.input_opposite] at hfree₂
  obtain ⟨hpos₂, ⟨n₂, d₂, hspot₂, hleg₂⟩, -⟩ := leg_spec hm₁ hfree₂ hon₂' hquote₂ h₂
  have hscale : rawScale m₁.poolState = rawScale m.poolState :=
    (show rawScale (quoted m₁.poolState) = rawScale (quoted m.poolState) by rw [hpool])
  rw [retained_congr hpool hconfig] at hleg₂
  rw [hscale] at hspot₂
  obtain ⟨hf, hg⟩ := rawScale_pos m.poolState
  have hD := feeRateDenominatorValue_pos
  cases direction with
  | zeroForOne =>
    simp only [TradeDirection.orient, TradeDirection.opposite, SkewedQuote.effectiveMantissa,
      Prod.mk.injEq] at hspot₁ hspot₂ hpos₁ hpos₂
    obtain ⟨rfl, rfl⟩ := hspot₁
    obtain ⟨rfl, rfl⟩ := hspot₂
    have hask : 0 < quote₂.askMantissa.toNat := by omega
    refine legs_le hg (Nat.mul_pos hask hf) hD hleg₁ hleg₂ ?_
    exact crossed_scale (uncrossed_toNat hpos₁.le hpos₂.le huncrossed)
  | oneForZero =>
    simp only [TradeDirection.orient, TradeDirection.opposite, SkewedQuote.effectiveMantissa,
      Prod.mk.injEq] at hspot₁ hspot₂ hpos₁ hpos₂
    obtain ⟨rfl, rfl⟩ := hspot₁
    obtain ⟨rfl, rfl⟩ := hspot₂
    have hask : 0 < quote₁.askMantissa.toNat := by omega
    refine legs_le (Nat.mul_pos hask hf) hg hD hleg₁ hleg₂ ?_
    have hprice := crossed_scale (f := (rawScale m.poolState).1) (g := (rawScale m.poolState).2)
      (uncrossed_toNat hpos₂.le hpos₁.le huncrossed)
    rw [Nat.mul_comm _ (rawScale m.poolState).2] at hprice
    rwa [Nat.mul_comm _ (rawScale m.poolState).2]

/-- A pool with skew, without deadzone, at a trade fee of 0.001 %, 0.01 % out of balance
but for one unit of token_0. -/
def skewedPool : Market where
  ammConfig := { exampleConfig with tradeFeeRate := 10, creatorFeeRate := 0 }
  poolState := Instructions.initialPoolState (exampleEnv 1000) 1000100004999 1001 7 .bothToken false
    { exampleArgs with
      initAmount0 := 1000200020001
      initAmount1 := 1000000000000
      inventorySkewEnabled := true
      inventorySkewBpsPerPct := 100
      inventorySkewMaxBps := 1000 }
  vault := ⟨1000200020001, 1000000000000⟩
  lpMintSupply := 1000100004899
  observationState := .default

theorem skewedPool_reachable : skewedPool.Reachable := by
  refine ⟨skewedPool, [], ?_, rfl⟩
  have hconfig :
      AmmConfig.Reachable { exampleConfig with tradeFeeRate := 10, creatorFeeRate := 0 } :=
    .create (show createAmmConfig adminId 0 10 120000 40000 0 0 = .ok _ by decide +kernel)
  exact .permissionless hconfig (show initializePermissionless _ (exampleEnv 1000) 7
    { exampleArgs with
      initAmount0 := 1000200020001
      initAmount1 := 1000000000000
      inventorySkewEnabled := true
      inventorySkewBpsPerPct := 100
      inventorySkewMaxBps := 1000 } ⟨⟨1000200020001, 1000000000000⟩, 0⟩ = .ok skewedPool by
    decide +kernel)

/-- One leg by a trader who holds just what he sells. -/
def sell (m : Market) (direction : TradeDirection) (amount : Nat) : Exec (Market × SwapReceipt) :=
  Instructions.swapBaseInput m (exampleEnv 1100) direction.input direction.output amount 0 amount
    false

/-- What token_0 sold and bought back at once returns. -/
def roundTrip (m : Market) (amount : Nat) : Exec Nat := do
  let (m₁, first) ← sell m .zeroForOne amount
  let (_, second) ← sell m₁ .oneForZero first.result.outputAmount
  pure second.result.outputAmount

/-- Quoted without a spread, the first leg tips the imbalance over its first basis point,
and the second leg buys at an ask one basis point below the bid of the first. -/
theorem roundTrip_profits :
    let m := replay Market.step skewedPool [examplePush 100000000 100000000 0]
    m.Reachable ∧ m.poolState.inventorySkewEnabled ≠ 0 ∧
      m.poolState.inventorySkewDeadzoneBps ≤ 5000 ∧ m.poolState.inventorySkewBpsPerPct ≤ 100 ∧
      m.poolState.inventorySkewMaxBps ≤ 1000 ∧ roundTrip m 1000000 = .ok 1000078 := by
  refine ⟨skewedPool_reachable.replay [_], ?_, ?_, ?_, ?_, ?_⟩
  · decide +kernel
  · decide +kernel
  · decide +kernel
  · decide +kernel
  · decide +kernel

/-- At a spread of two basis points the same trade costs the trader. -/
theorem roundTrip_le_skewedPool :
    let m := replay Market.step skewedPool [examplePush 99990000 100010000 0]
    ∃ m₁ m₂ R₁ R₂, sell m .zeroForOne 1000000 = .ok (m₁, R₁) ∧
      sell m₁ .oneForZero R₁.result.outputAmount = .ok (m₂, R₂) ∧
      R₂.result.outputAmount ≤ 1000000 := by
  intro m
  obtain ⟨⟨m₂, R₂⟩, h⟩ := exists_of_isOk (show (sell m .zeroForOne 1000000 >>= fun r =>
    sell r.1 .oneForZero r.2.result.outputAmount).toOption.isSome = true by decide +kernel)
  obtain ⟨⟨m₁, R₁⟩, h₁, h₂⟩ := bind_eq_ok.mp h
  have hquote₁ : currentQuote m = .ok ⟨0, 0, 99990000, 100010000⟩ := by decide +kernel
  have hquote₂ : (sell m .zeroForOne 1000000).toOption.map (fun r => currentQuote r.1) =
      some (.ok ⟨1, -1, 99980001, 99999999⟩) := by decide +kernel
  rw [h₁] at hquote₂
  have huncrossed : Uncrossed m true true
      (legQuotes .zeroForOne ⟨0, 0, 99990000, 100010000⟩ ⟨1, -1, 99980001, 99999999⟩) := by
    unfold Uncrossed
    decide +kernel
  exact ⟨m₁, m₂, R₁, R₂, h₁, h₂, roundTrip_le m m₁ m₂ (skewedPool_reachable.replay [_]) .zeroForOne
    true true rfl rfl _ _ (.inl rfl) (.inl rfl) 1000000 0 0 _ _ false false R₁ R₂ h₁ h₂ _ _ hquote₁
    (Option.some.inj hquote₂) (.inr huncrossed)⟩

end NomadAmm.Soundness.RoundTrip

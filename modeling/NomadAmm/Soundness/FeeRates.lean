import NomadAmm.Soundness.ShareValue

/-! The rate a swap is charged in all. The config setters hold trade and creator rate
below 100 % together, and the oracle push holds the dynamic rate that replaces the
trade rate below 100 % on its own. The sum of dynamic and creator rate is checked by
nobody, so a run keeps the combined rate below 100 % exactly if its calls do. -/

namespace NomadAmm.Soundness.FeeRates

open Lib.Transition Lib.Rounding Exec
open Soundness.Settlement Soundness.Ledger Soundness.Solvency Soundness.ShareValue

variable {m m' : Market}

/-- Trade and creator rate as a swap is charged them. -/
def combinedFeeRate (m : Market) : Nat :=
  m.poolState.effectiveTradeFeeRate m.ammConfig.tradeFeeRate +
    m.poolState.adjustCreatorFeeRate m.ammConfig.creatorFeeRate

/-- A dynamic rate and a creator rate that stay below 100 % where both are charged. -/
def RatesFit (enableCreatorFee : Bool) (dynamicFeeRate creatorFeeRate : Nat) : Prop :=
  dynamicFeeRate = 0 ∨ enableCreatorFee = false ∨
    dynamicFeeRate + creatorFeeRate < feeRateDenominatorValue

/-- What neither the oracle push nor the creator-fee setter checks. -/
def KeepsRates (m : Market) : Op → Prop
  | .updatePoolOracle _ _ _ _ dynamicFeeRate =>
    RatesFit m.poolState.enableCreatorFee dynamicFeeRate m.ammConfig.creatorFeeRate
  | .updateAmmConfig _ 7 value _ =>
    RatesFit m.poolState.enableCreatorFee m.poolState.dynamicFeeRate value
  | _ => True

theorem keepsRates_of_collect {op : Op} (h : isCollect op = true) : KeepsRates m op := by
  cases op with
  | updateAmmConfig _ _ _ _ => cases h
  | updatePoolOracle _ _ _ _ _ => cases h
  | _ => trivial

/-- The combined rate by its four inputs. -/
theorem combinedFeeRate_lt_iff (hrates : m.ammConfig.RatesBounded)
    (hdynamic : m.poolState.dynamicFeeRate < feeRateDenominatorValue) :
    combinedFeeRate m < feeRateDenominatorValue ↔
      RatesFit m.poolState.enableCreatorFee m.poolState.dynamicFeeRate
        m.ammConfig.creatorFeeRate := by
  have htrade := hrates.trade
  unfold combinedFeeRate PoolState.effectiveTradeFeeRate PoolState.adjustCreatorFeeRate RatesFit
  by_cases hzero : m.poolState.dynamicFeeRate = 0
  · refine iff_of_true ?_ (.inl hzero)
    rw [if_pos hzero]
    split <;> omega
  · rw [if_neg hzero]
    cases henable : m.poolState.enableCreatorFee with
    | false =>
      refine iff_of_true ?_ (.inr (.inl rfl))
      simpa using hdynamic
    | true =>
      rw [if_pos rfl]
      constructor
      · intro hlt
        exact .inr (.inr hlt)
      · rintro (h | h | h)
        · exact absurd h hzero
        · cases h
        · exact h

/-- Books with a dynamic rate the oracle push let through. -/
structure Pushed (m : Market) : Prop where
  sound : Sound m
  dynamic : m.poolState.dynamicFeeRate < feeRateDenominatorValue

theorem dynamicFeeRate_of_quoted {s s' : PoolState} (h : quoted s' = quoted s) :
    s'.dynamicFeeRate = s.dynamicFeeRate ∧ s'.enableCreatorFee = s.enableCreatorFee := by
  have hdynamic := congrArg PoolState.dynamicFeeRate h
  have henable := congrArg PoolState.enableCreatorFee h
  exact ⟨hdynamic, henable⟩

theorem effect_dynamic {op : Op} (hm : Pushed m) (h : Effect m op m') :
    m'.poolState.dynamicFeeRate < feeRateDenominatorValue := by
  cases hpush : isPush op with
  | false =>
    rw [(dynamicFeeRate_of_quoted (effect_quoted hpush h)).1]
    exact hm.dynamic
  | true =>
    cases h with
    | updatePoolOracle _ _ hfee => exact hfee
    | collect _ _ hop _ => cases op <;> cases hop <;> cases hpush
    | _ => cases hpush

theorem step_pushed {call : Call} {e : Event} (hm : Pushed m) (h : m.step call = .ok (m', e)) :
    Pushed m' :=
  ⟨step_sound hm.sound h, effect_dynamic hm (step_effect hm.sound h)⟩

/-- Where a call leaves the rates alone it keeps their sum. -/
theorem ratesFit_congr {op : Op} (hop : KeepsRates m op) (hpool : quoted m'.poolState =
    quoted m.poolState) (hconfig : m'.ammConfig.creatorFeeRate = m.ammConfig.creatorFeeRate)
    (hfit : RatesFit m.poolState.enableCreatorFee m.poolState.dynamicFeeRate
      m.ammConfig.creatorFeeRate) :
    RatesFit m'.poolState.enableCreatorFee m'.poolState.dynamicFeeRate
      m'.ammConfig.creatorFeeRate ↔ KeepsRates m op := by
  obtain ⟨hdynamic, henable⟩ := dynamicFeeRate_of_quoted hpool
  rw [hdynamic, henable, hconfig]
  exact iff_of_true hfit hop

/-- **One call keeps the sum exactly if it meets the condition.** -/
theorem effect_ratesFit {op : Op} (h : Effect m op m')
    (hfit : RatesFit m.poolState.enableCreatorFee m.poolState.dynamicFeeRate
      m.ammConfig.creatorFeeRate) :
    RatesFit m'.poolState.enableCreatorFee m'.poolState.dynamicFeeRate
      m'.ammConfig.creatorFeeRate ↔ KeepsRates m op := by
  cases h with
  | @updateAmmConfig owner param value remaining c h =>
    rcases updateAmmConfig_cases h with ⟨rfl, _, rfl⟩ | ⟨rfl, _, rfl⟩ | ⟨rfl, _, rfl⟩ |
      ⟨rfl, _, rfl⟩ | ⟨hparam, _, hcreator, _⟩
    · exact iff_of_true hfit trivial
    · exact iff_of_true hfit trivial
    · exact iff_of_true hfit trivial
    · exact Iff.rfl
    · refine ratesFit_congr ?_ rfl hcreator hfit
      unfold KeepsRates
      split
      · next heq => cases heq
      · next heq =>
        cases heq
        exact absurd rfl hparam
      · trivial
  | updatePoolStatus => exact iff_of_true hfit trivial
  | updatePoolOracle _ _ _ => exact Iff.rfl
  | setOracleKeeper => exact iff_of_true hfit trivial
  | collect _ _ hop h =>
    exact ratesFit_congr (keepsRates_of_collect hop) h.quoted (by rw [h.config]) hfit
  | deposit h => exact ratesFit_congr trivial h.quoted (by rw [h.config]) hfit
  | withdraw h => exact ratesFit_congr trivial h.quoted (by rw [h.config]) hfit
  | swapBaseInput _ hs => exact ratesFit_congr trivial hs.quoted (by rw [hs.config]) hfit
  | swapBaseOutput _ hs => exact ratesFit_congr trivial hs.quoted (by rw [hs.config]) hfit
  | donate _ _ => exact iff_of_true hfit trivial
  | burnLp _ => exact iff_of_true hfit trivial

/-- What a combined rate below 100 % is good for: both pre-fee amounts of an exact-out
swap are found, and no exact-in fee exceeds its input. -/
def FeesPayable (m : Market) : Prop :=
  ∀ (onInput : Bool) (amount : Nat),
    let tradeFeeRate := m.poolState.effectiveTradeFeeRate m.ammConfig.tradeFeeRate
    let creatorFeeRate := m.poolState.adjustCreatorFeeRate m.ammConfig.creatorFeeRate
    (amount * feeRateDenominatorValue + feeRateDenominatorValue < 2 ^ 128 →
      (∃ gross, Fees.calculatePreFeeAmount amount
        (inputFeeRate onInput tradeFeeRate creatorFeeRate) = some gross) ∧
      ∃ gross, Fees.calculatePreFeeAmount amount (outputFeeRate onInput creatorFeeRate) =
        some gross) ∧
    ceilDiv (amount * inputFeeRate onInput tradeFeeRate creatorFeeRate) feeRateDenominatorValue ≤
      amount

theorem feesPayable_of_lt (h : combinedFeeRate m < feeRateDenominatorValue) : FeesPayable m := by
  intro onInput amount tradeFeeRate creatorFeeRate
  have hin := inputFeeRate_lt onInput h
  have hout := outputFeeRate_lt onInput h
  refine ⟨fun hfit => ⟨⟨_, Fees.calculatePreFeeAmount_of_fits hin hfit⟩,
    ⟨_, Fees.calculatePreFeeAmount_of_fits hout hfit⟩⟩, ?_⟩
  exact fee_le feeRateDenominatorValue_pos hin.le amount

/-- **When the combined fee rate stays below 100 %.** From a new pool on it does in every
state of a run exactly if every successful push and every successful change of the
creator rate keeps dynamic and creator rate together below 100 %. The shares of
protocol and fund are bounded in any run. -/
theorem combinedFeeRate_iff (m₀ : Market) (calls : List Call) (hinit : Market.Initial m₀) :
    (Throughout Market.step (fun m => combinedFeeRate m < feeRateDenominatorValue ∧ FeesPayable m)
        m₀ calls ↔
      Along Market.step (fun m call => (∃ r, m.step call = .ok r) → KeepsRates m call.op)
        m₀ calls) ∧
    Throughout Market.step (fun m => m.ammConfig.protocolFeeRate + m.ammConfig.fundFeeRate ≤
      feeRateDenominatorValue) m₀ calls := by
  obtain ⟨c, -, hopen⟩ := initial_opened hinit
  have hzero := hopen.unquoted.2.2
  have hpushed : Pushed m₀ := ⟨initial_sound hinit, by rw [hzero]; decide⟩
  have hiff : ∀ m, Pushed m → (combinedFeeRate m < feeRateDenominatorValue ∧ FeesPayable m ↔
      RatesFit m.poolState.enableCreatorFee m.poolState.dynamicFeeRate
        m.ammConfig.creatorFeeRate) := by
    intro m hm
    rw [← combinedFeeRate_lt_iff hm.sound.rates hm.dynamic]
    exact ⟨And.left, fun h => ⟨h, feesPayable_of_lt h⟩⟩
  refine ⟨?_, ?_⟩
  · refine throughout_iff_along (I := Pushed) (fun _ _ _ _ hm h => step_pushed hm h) ?_ calls
      hpushed ((hiff m₀ hpushed).mpr (.inl hzero))
    intro m call m' e hm hp h
    rw [hiff m' (step_pushed hm h)]
    exact effect_ratesFit (step_effect hm.sound h) ((hiff m hm).mp hp)
  · exact throughout_invariant (fun _ _ _ _ hm h => step_sound hm h)
      (fun _ hm => hm.rates.shares) calls hpushed.sound

/-- Pushes of 0.5 % and of 2 % keep the example pool below 100 %. -/
theorem combinedFeeRate_iff_examplePool :
    Throughout Market.step (fun m => combinedFeeRate m < feeRateDenominatorValue ∧ FeesPayable m)
      examplePool [examplePush 100000000 100000000 5000, examplePush 100000000 100000000 20000] :=
  (combinedFeeRate_iff examplePool _ examplePool_initial).1.mpr
    ⟨fun _ => .inr (.inr (by decide +kernel)), fun _ => .inr (.inr (by decide +kernel)), trivial⟩

/-- Beside a creator rate of 0.1 % the keeper may push a dynamic rate of 99.9999 %: exact-in
swaps then charge more than they are given, and exact-out swaps panic. -/
theorem combinedFeeRate_overflows :
    let m := replay Market.step examplePool [examplePush 100000000 100000000 999999]
    m.Reachable ∧ combinedFeeRate m = 1000999 ∧
      m.step (exampleSwap 1100 .token0 .token1 1000000) = .error (.code .zeroTradingTokens) ∧
      m.step ⟨exampleEnv 1100, .swapBaseOutput .token0 .token1 1000000000 1000 1000000000 false⟩ =
        .error .panic := by
  refine ⟨examplePool_reachable.replay [_], ?_, ?_, ?_⟩
  · decide +kernel
  · decide +kernel
  · decide +kernel

end NomadAmm.Soundness.FeeRates

import NomadAmm.Curve.Fees
import NomadAmm.Curve.OracleCurve
import NomadAmm.Curve.ConstantProduct

/-! `curve/calculator.rs`: fees around the oracle kernel, exact-in and exact-out.
Both entry points return one `SwapResult`, and `SwapResult.Covers` states what a
result of either promises the pool. -/

namespace NomadAmm

open Lib.Checked Lib.Rounding Exec

inductive TradeDirection
  | zeroForOne
  | oneForZero
  deriving DecidableEq, Repr

def TradeDirection.opposite : TradeDirection → TradeDirection
  | .zeroForOne => .oneForZero
  | .oneForZero => .zeroForOne

structure SwapResult where
  newInputVaultAmount : Nat
  newOutputVaultAmount : Nat
  inputAmount : Nat
  outputAmount : Nat
  tradeFee : Nat
  protocolFee : Nat
  fundFee : Nat
  creatorFee : Nat
  deriving DecidableEq, Repr

namespace CurveCalculator

def validateSupply (token0Amount token1Amount : Nat) : Exec Unit := do
  require (token0Amount ≠ 0) (.code .emptySupply)
  require (token1Amount ≠ 0) (.code .emptySupply)

/-- A combined fee taken apart: what is left as trade fee, and the creator's part. -/
def splitTotalFee (totalFee tradeFeeRate creatorFeeRate totalFeeRate : Nat) :
    Exec (Nat × Nat) := do
  let creatorFee ←
    (if totalFeeRate = 0 then .ok 0
      else Fees.splitCreatorFee totalFee tradeFeeRate creatorFeeRate : Exec Nat)
  let tradeFee ← unwrap (checkedSub totalFee creatorFee)
  pure (tradeFee, creatorFee)

/-- Input side of the exact-in swap: trade fee, creator fee, and the rest. -/
def chargeInput (inputAmount tradeFeeRate creatorFeeRate : Nat) (isCreatorFeeOnInput : Bool) :
    Exec (Nat × Nat × Nat) :=
  if isCreatorFeeOnInput then do
    let totalFeeRate ← orNone (checkedAdd 64 tradeFeeRate creatorFeeRate)
    let totalFee ← orNone (Fees.tradingFee inputAmount totalFeeRate)
    let (tradeFee, creatorFee) ← splitTotalFee totalFee tradeFeeRate creatorFeeRate totalFeeRate
    let inputAmountLessFees ← orNone (checkedSub inputAmount totalFee)
    pure (tradeFee, creatorFee, inputAmountLessFees)
  else do
    let tradeFee ← orNone (Fees.tradingFee inputAmount tradeFeeRate)
    let inputAmountLessFees ← orNone (checkedSub inputAmount tradeFee)
    pure (tradeFee, 0, inputAmountLessFees)

/-- Output side of the exact-in swap: what the trader gets, and the creator fee. -/
def chargeOutput (outputAmountSwapped creatorFeeRate creatorFeeOnInput : Nat)
    (isCreatorFeeOnInput : Bool) : Exec (Nat × Nat) :=
  if isCreatorFeeOnInput then pure (outputAmountSwapped, creatorFeeOnInput)
  else do
    let creatorFee ← orNone (Fees.creatorFee outputAmountSwapped creatorFeeRate)
    let outputAmount ← orNone (checkedSub outputAmountSwapped creatorFee)
    pure (outputAmount, creatorFee)

def swapBaseInput (inputAmount inputVaultAmount outputVaultAmount tradeFeeRate creatorFeeRate
    protocolFeeRate fundFeeRate : Nat) (isCreatorFeeOnInput : Bool) (spotNum spotDen : Nat) :
    Exec SwapResult := do
  let (tradeFee, creatorFeeOnInput, inputAmountLessFees) ←
    chargeInput inputAmount tradeFeeRate creatorFeeRate isCreatorFeeOnInput
  let protocolFee ← orNone (Fees.protocolFee tradeFee protocolFeeRate)
  let fundFee ← orNone (Fees.fundFee tradeFee fundFeeRate)
  let outputAmountSwapped ← OracleCurve.swapBaseInputWithoutFees inputAmountLessFees
    inputVaultAmount outputVaultAmount spotNum spotDen
  let (outputAmount, creatorFee) ←
    chargeOutput outputAmountSwapped creatorFeeRate creatorFeeOnInput isCreatorFeeOnInput
  let newInputVaultAmount ← orNone (checkedAdd 128 inputVaultAmount inputAmountLessFees)
  let newOutputVaultAmount ← orNone (checkedSub outputVaultAmount outputAmountSwapped)
  pure { newInputVaultAmount, newOutputVaultAmount, inputAmount, outputAmount, tradeFee,
         protocolFee, fundFee, creatorFee }

/-- Output side of the exact-out swap: what the curve must pay, and the creator fee. -/
def grossOutput (outputAmount creatorFeeRate : Nat) (isCreatorFeeOnInput : Bool) :
    Exec (Nat × Nat) :=
  if isCreatorFeeOnInput then pure (outputAmount, 0)
  else do
    let outAmountWithCreatorFee ← orNone (Fees.calculatePreFeeAmount outputAmount creatorFeeRate)
    let creatorFee ← unwrap (checkedSub outAmountWithCreatorFee outputAmount)
    pure (outAmountWithCreatorFee, creatorFee)

/-- Input side of the exact-out swap: what the trader pays, trade fee, creator fee.
The gross amount is unwrapped, so a rate at the denominator panics. -/
def grossInput (inputAmountSwapped tradeFeeRate creatorFeeRate creatorFeeOnOutput : Nat)
    (isCreatorFeeOnInput : Bool) : Exec (Nat × Nat × Nat) :=
  if isCreatorFeeOnInput then do
    let totalFeeRate ← orNone (checkedAdd 64 tradeFeeRate creatorFeeRate)
    let inputAmountWithFee ← unwrap (Fees.calculatePreFeeAmount inputAmountSwapped totalFeeRate)
    let totalFee ← unwrap (checkedSub inputAmountWithFee inputAmountSwapped)
    let (tradeFee, creatorFee) ← splitTotalFee totalFee tradeFeeRate creatorFeeRate totalFeeRate
    pure (inputAmountWithFee, tradeFee, creatorFee)
  else do
    let inputAmountWithFee ← unwrap (Fees.calculatePreFeeAmount inputAmountSwapped tradeFeeRate)
    let tradeFee ← unwrap (checkedSub inputAmountWithFee inputAmountSwapped)
    pure (inputAmountWithFee, tradeFee, creatorFeeOnOutput)

def swapBaseOutput (outputAmount inputVaultAmount outputVaultAmount tradeFeeRate creatorFeeRate
    protocolFeeRate fundFeeRate : Nat) (isCreatorFeeOnInput : Bool) (spotNum spotDen : Nat) :
    Exec SwapResult := do
  let (actualOutputAmount, creatorFeeOnOutput) ←
    grossOutput outputAmount creatorFeeRate isCreatorFeeOnInput
  let inputAmountSwapped ← OracleCurve.swapBaseOutputWithoutFees actualOutputAmount
    inputVaultAmount outputVaultAmount spotNum spotDen
  let (inputAmount, tradeFee, creatorFee) ←
    grossInput inputAmountSwapped tradeFeeRate creatorFeeRate creatorFeeOnOutput isCreatorFeeOnInput
  let protocolFee ← orNone (Fees.protocolFee tradeFee protocolFeeRate)
  let fundFee ← orNone (Fees.fundFee tradeFee fundFeeRate)
  let newInputVaultAmount ← orNone (checkedAdd 128 inputVaultAmount inputAmountSwapped)
  let newOutputVaultAmount ← orNone (checkedSub outputVaultAmount actualOutputAmount)
  pure { newInputVaultAmount, newOutputVaultAmount, inputAmount, outputAmount, tradeFee,
         protocolFee, fundFee, creatorFee }

def lpTokensToTradingTokens (lpTokenAmount lpTokenSupply token0VaultAmount token1VaultAmount : Nat)
    (roundDirection : RoundDirection) : Option TradingTokenResult :=
  ConstantProductCurve.lpTokensToTradingTokens lpTokenAmount lpTokenSupply token0VaultAmount
    token1VaultAmount roundDirection

end CurveCalculator

/-! ## What a swap result is made of -/

/-- The rate charged on the input, and the one charged on the output. -/
def inputFeeRate (isCreatorFeeOnInput : Bool) (tradeFeeRate creatorFeeRate : Nat) : Nat :=
  if isCreatorFeeOnInput then tradeFeeRate + creatorFeeRate else tradeFeeRate

def outputFeeRate (isCreatorFeeOnInput : Bool) (creatorFeeRate : Nat) : Nat :=
  if isCreatorFeeOnInput then 0 else creatorFeeRate

/-- The result of any swap that pays `input`, puts `less` on the curve, takes
`swapped` off it and delivers `output`. Exact-in and exact-out differ only in
which of the four amounts they start from. -/
def SwapResult.of (x y tradeRate creatorRate protocolRate fundRate : Nat) (onInput : Bool)
    (input less swapped output : Nat) : SwapResult :=
  let totalFee := input - less
  let creatorFee :=
    if onInput then totalFee * creatorRate / (tradeRate + creatorRate) else swapped - output
  let tradeFee := if onInput then totalFee - creatorFee else totalFee
  { newInputVaultAmount := x + less
    newOutputVaultAmount := y - swapped
    inputAmount := input
    outputAmount := output
    tradeFee
    protocolFee := tradeFee * protocolRate / feeRateDenominatorValue
    fundFee := tradeFee * fundRate / feeRateDenominatorValue
    creatorFee }

/-- What every swap result promises the pool: the input covers the curve's input
and its fees, the curve's output covers what leaves, less than the output reserve
leaves, and the curve never pays above the oracle spot `n / d`. -/
structure SwapResult.Covers (R : SwapResult) (onInput : Bool) (y n d less swapped : Nat) :
    Prop where
  input : R.inputAmount = less + R.tradeFee + (if onInput then R.creatorFee else 0)
  output : swapped = R.outputAmount + (if onInput then 0 else R.creatorFee)
  bounded : swapped < y
  spot : swapped * d ≤ less * n

section

variable {x y n d t c p f input less swapped output total : Nat} {onInput : Bool} {R : SwapResult}

theorem inputFeeRate_lt (onInput : Bool) (h : t + c < feeRateDenominatorValue) :
    inputFeeRate onInput t c < feeRateDenominatorValue := by
  cases onInput <;> simp only [inputFeeRate, if_true, Bool.false_eq_true, if_false] <;> omega

theorem outputFeeRate_lt (onInput : Bool) (h : t + c < feeRateDenominatorValue) :
    outputFeeRate onInput c < feeRateDenominatorValue := by
  cases onInput <;> simp only [outputFeeRate, if_true, Bool.false_eq_true, if_false] <;> omega

theorem creatorShare_le (total t c : Nat) : total * c / (t + c) ≤ total :=
  Nat.div_le_of_le_mul (by rw [Nat.mul_comm]; exact Nat.mul_le_mul_right _ (by omega))

theorem SwapResult.of_covers (hless : less ≤ input) (hout : output ≤ swapped)
    (hon : onInput = true → output = swapped) (hb : swapped < y) (hs : swapped * d ≤ less * n) :
    (SwapResult.of x y t c p f onInput input less swapped output).Covers onInput y n d less swapped
    where
  input := by
    cases onInput with
    | true =>
      have := creatorShare_le (input - less) t c
      simp only [SwapResult.of, if_true]
      omega
    | false =>
      simp only [SwapResult.of, Bool.false_eq_true, if_false]
      omega
  output := by
    cases onInput with
    | true => simpa [SwapResult.of] using (hon rfl).symm
    | false =>
      simp only [SwapResult.of, Bool.false_eq_true, if_false]
      omega
  bounded := hb
  spot := hs

/-- The record a handler computes is the one `SwapResult.of` names. -/
theorem SwapResult.of_eq {tf cf : Nat} (hcf : onInput = true → cf = (input - less) * c / (t + c))
    (hoff : onInput = false → cf = swapped - output)
    (htf : tf = input - less - (if onInput then cf else 0)) :
    SwapResult.of x y t c p f onInput input less swapped output =
      ⟨x + less, y - swapped, input, output, tf, tf * p / feeRateDenominatorValue,
        tf * f / feeRateDenominatorValue, cf⟩ := by
  cases onInput with
  | true =>
    have hc := hcf rfl
    simp only [if_true] at htf
    simp only [SwapResult.of, if_true]
    rw [htf, hc]
  | false =>
    have hc := hoff rfl
    simp only [Bool.false_eq_true, if_false, Nat.sub_zero] at htf
    simp only [SwapResult.of, Bool.false_eq_true, if_false]
    rw [htf, hc]

/-- Protocol and fund take their shares out of the trade fee. -/
theorem SwapResult.of_shares_le (hrate : p + f ≤ feeRateDenominatorValue) :
    (SwapResult.of x y t c p f onInput input less swapped output).protocolFee +
      (SwapResult.of x y t c p f onInput input less swapped output).fundFee ≤
      (SwapResult.of x y t c p f onInput input less swapped output).tradeFee :=
  Fees.floor_shares_le hrate

namespace CurveCalculator

theorem splitTotalFee_eq_ok {tradeFee creatorFee : Nat} :
    splitTotalFee total t c (t + c) = .ok (tradeFee, creatorFee) ↔
      (t + c = 0 ∨ t + c < 2 ^ 64 ∧ total * c < 2 ^ 128) ∧
        creatorFee = total * c / (t + c) ∧ tradeFee = total - creatorFee := by
  have hle := creatorShare_le total t c
  by_cases h0 : t + c = 0
  · simp only [splitTotalFee, h0, if_true, bind_eq_ok, unwrap_eq_ok, checkedSub_eq_some, pure_eq_ok,
      Prod.mk.injEq, Except.ok.injEq, Nat.div_zero]
    constructor
    · intro h
      obtain ⟨_, rfl, _, ⟨_, rfl⟩, rfl, rfl⟩ := h
      exact ⟨.inl trivial, rfl, rfl⟩
    · intro h
      obtain ⟨_, rfl, rfl⟩ := h
      exact ⟨_, rfl, _, ⟨by omega, rfl⟩, rfl, rfl⟩
  · simp only [splitTotalFee, h0, if_false, bind_eq_ok, unwrap_eq_ok, checkedSub_eq_some,
      pure_eq_ok, Prod.mk.injEq, Fees.splitCreatorFee_eq_ok, false_or]
    constructor
    · intro h
      obtain ⟨_, ⟨h1, _, h2, rfl⟩, _, ⟨_, rfl⟩, rfl, rfl⟩ := h
      exact ⟨⟨h1, h2⟩, rfl, rfl⟩
    · intro h
      obtain ⟨⟨h1, h2⟩, rfl, rfl⟩ := h
      exact ⟨_, ⟨h1, h0, h2, rfl⟩, _, ⟨hle, rfl⟩, rfl, rfl⟩

/-- The exact-in input side: one rounded-up fee at the input rate. -/
theorem chargeInput_spec {tradeFee creatorFee : Nat}
    (h : chargeInput input t c onInput = .ok (tradeFee, creatorFee, less)) :
    less = input - ceilDiv (input * inputFeeRate onInput t c) feeRateDenominatorValue ∧
      less ≤ input ∧ ceilDiv (input * inputFeeRate onInput t c) feeRateDenominatorValue ≤ input ∧
      (onInput = true → creatorFee = (input - less) * c / (t + c)) ∧
      tradeFee = input - less - (if onInput then creatorFee else 0) := by
  cases onInput with
  | true =>
    simp only [chargeInput, if_true, bind_eq_ok, orNone_eq_ok, checkedAdd_eq_some,
      Fees.tradingFee_eq_some, checkedSub_eq_some, pure_eq_ok, Prod.mk.injEq] at h
    obtain ⟨_, ⟨_, rfl⟩, _, ⟨_, rfl⟩, ⟨tf, cf⟩, hsplit, _, ⟨hle, rfl⟩, rfl, rfl, rfl⟩ := h
    obtain ⟨_, hcf, htf⟩ := splitTotalFee_eq_ok.mp hsplit
    simp only [inputFeeRate, if_true]
    refine ⟨trivial, Nat.sub_le _ _, hle, ?_, ?_⟩
    · intro _
      rw [Nat.sub_sub_self hle]; exact hcf
    · rw [Nat.sub_sub_self hle]; exact htf
  | false =>
    simp only [chargeInput, Bool.false_eq_true, if_false, bind_eq_ok, orNone_eq_ok,
      Fees.tradingFee_eq_some, checkedSub_eq_some, pure_eq_ok, Prod.mk.injEq] at h
    obtain ⟨_, ⟨_, rfl⟩, _, ⟨hle, rfl⟩, rfl, rfl, rfl⟩ := h
    simp only [inputFeeRate, Bool.false_eq_true, if_false]
    exact ⟨trivial, Nat.sub_le _ _, hle, False.elim, by omega⟩

/-- The exact-in output side: one rounded-up fee at the output rate. -/
theorem chargeOutput_spec {cfIn cf : Nat}
    (h : chargeOutput swapped c cfIn onInput = .ok (output, cf)) :
    output = swapped - ceilDiv (swapped * outputFeeRate onInput c) feeRateDenominatorValue ∧
      output ≤ swapped ∧ (onInput = true → output = swapped ∧ cf = cfIn) ∧
      (onInput = false → cf = swapped - output) := by
  cases onInput with
  | true =>
    simp only [chargeOutput, if_true, pure_eq_ok, Prod.mk.injEq] at h
    obtain ⟨rfl, rfl⟩ := h
    have hz : ceilDiv 0 feeRateDenominatorValue = 0 := by decide
    simp [outputFeeRate, hz]
  | false =>
    simp only [chargeOutput, Bool.false_eq_true, if_false, bind_eq_ok, orNone_eq_ok,
      Fees.creatorFee_eq_some, checkedSub_eq_some, pure_eq_ok, Prod.mk.injEq] at h
    obtain ⟨_, ⟨_, rfl⟩, _, ⟨hle, rfl⟩, rfl, rfl⟩ := h
    simp only [outputFeeRate, Bool.false_eq_true, if_false]
    exact ⟨trivial, Nat.sub_le _ _, False.elim, fun _ => by omega⟩

/-- **Exact-in**, stage by stage. -/
theorem swapBaseInput_spec (h : swapBaseInput input x y t c p f onInput n d = .ok R) :
    ∃ less swapped output,
      less = input - ceilDiv (input * inputFeeRate onInput t c) feeRateDenominatorValue ∧
      ceilDiv (input * inputFeeRate onInput t c) feeRateDenominatorValue ≤ input ∧
      OracleCurve.swapBaseInputWithoutFees less x y n d = .ok swapped ∧
      output = swapped - ceilDiv (swapped * outputFeeRate onInput c) feeRateDenominatorValue ∧
      R = SwapResult.of x y t c p f onInput input less swapped output ∧
      R.Covers onInput y n d less swapped := by
  simp only [swapBaseInput, bind_eq_ok, orNone_eq_ok, checkedAdd_eq_some, checkedSub_eq_some,
    Fees.protocolFee_eq_some, Fees.fundFee_eq_some, pure_eq_ok] at h
  obtain ⟨⟨tf, cfIn, less⟩, hin, _, ⟨_, rfl⟩, _, ⟨_, rfl⟩, swapped, hk, ⟨output, cf⟩, hout, _,
    ⟨_, rfl⟩, _, ⟨_, rfl⟩, rfl⟩ := h
  obtain ⟨hless, hle, hfee, hcf, htf⟩ := chargeInput_spec hin
  obtain ⟨ho, hole, hon, hoff⟩ := chargeOutput_spec hout
  have hR : SwapResult.of x y t c p f onInput input less swapped output =
      ⟨x + less, y - swapped, input, output, tf, tf * p / feeRateDenominatorValue,
        tf * f / feeRateDenominatorValue, cf⟩ := by
    apply SwapResult.of_eq (fun h => (hon h).2.trans (hcf h)) hoff
    cases onInput with
    | true => rw [htf, (hon rfl).2]
    | false => exact htf
  refine ⟨less, swapped, output, hless, hfee, hk, ho, hR.symm, ?_⟩
  dsimp only
  rw [← hR]
  obtain ⟨_, _, _, _, _, hb⟩ := OracleCurve.swapBaseInputWithoutFees_spec hk
  exact SwapResult.of_covers hle hole (fun hon' => (hon hon').1) hb
    (OracleCurve.swapBaseInputWithoutFees_spot hk)

/-- The exact-out output side: the gross amount at the output rate. -/
theorem grossOutput_spec {cf : Nat} (h : grossOutput output c onInput = .ok (swapped, cf)) :
    outputFeeRate onInput c < feeRateDenominatorValue ∧
      swapped = grossUp feeRateDenominatorValue (outputFeeRate onInput c) output ∧
      output ≤ swapped ∧ cf = swapped - output ∧ (onInput = true → output = swapped) := by
  cases onInput with
  | true =>
    simp only [grossOutput, if_true, pure_eq_ok, Prod.mk.injEq] at h
    obtain ⟨rfl, rfl⟩ := h
    simp [outputFeeRate, grossUp_zero]
  | false =>
    simp only [grossOutput, Bool.false_eq_true, if_false, bind_eq_ok, orNone_eq_ok, unwrap_eq_ok,
      checkedSub_eq_some, pure_eq_ok, Prod.mk.injEq] at h
    obtain ⟨_, hg, _, ⟨hle, rfl⟩, rfl, rfl⟩ := h
    obtain ⟨hr, heq⟩ := Fees.calculatePreFeeAmount_spec hg
    simp only [outputFeeRate, Bool.false_eq_true, if_false]
    exact ⟨hr, heq, hle, trivial, False.elim⟩

/-- The exact-out input side: the gross amount at the input rate. -/
theorem grossInput_spec {tf cf cfOut : Nat}
    (h : grossInput less t c cfOut onInput = .ok (input, tf, cf)) :
    inputFeeRate onInput t c < feeRateDenominatorValue ∧
      input = grossUp feeRateDenominatorValue (inputFeeRate onInput t c) less ∧ less ≤ input ∧
      (onInput = true → cf = (input - less) * c / (t + c)) ∧ (onInput = false → cf = cfOut) ∧
      tf = input - less - (if onInput then cf else 0) := by
  cases onInput with
  | true =>
    simp only [grossInput, if_true, bind_eq_ok, orNone_eq_ok, unwrap_eq_ok, checkedAdd_eq_some,
      checkedSub_eq_some, pure_eq_ok, Prod.mk.injEq] at h
    obtain ⟨_, ⟨_, rfl⟩, _, hg, _, ⟨hle, rfl⟩, ⟨tf', cf'⟩, hsplit, rfl, rfl, rfl⟩ := h
    obtain ⟨hr, heq⟩ := Fees.calculatePreFeeAmount_spec hg
    obtain ⟨_, hcf, htf⟩ := splitTotalFee_eq_ok.mp hsplit
    simp only [inputFeeRate, if_true]
    exact ⟨hr, heq, hle, fun _ => hcf, fun h => (by cases h), htf⟩
  | false =>
    simp only [grossInput, Bool.false_eq_true, if_false, bind_eq_ok, unwrap_eq_ok,
      checkedSub_eq_some, pure_eq_ok, Prod.mk.injEq] at h
    obtain ⟨_, hg, _, ⟨hle, rfl⟩, rfl, rfl, rfl⟩ := h
    obtain ⟨hr, heq⟩ := Fees.calculatePreFeeAmount_spec hg
    simp only [inputFeeRate, Bool.false_eq_true, if_false]
    exact ⟨hr, heq, hle, False.elim, fun _ => trivial, by omega⟩

/-- **Exact-out**, stage by stage. -/
theorem swapBaseOutput_spec (h : swapBaseOutput output x y t c p f onInput n d = .ok R) :
    ∃ less swapped input,
      outputFeeRate onInput c < feeRateDenominatorValue ∧
      inputFeeRate onInput t c < feeRateDenominatorValue ∧
      swapped = grossUp feeRateDenominatorValue (outputFeeRate onInput c) output ∧
      OracleCurve.swapBaseOutputWithoutFees swapped x y n d = .ok less ∧
      input = grossUp feeRateDenominatorValue (inputFeeRate onInput t c) less ∧
      R = SwapResult.of x y t c p f onInput input less swapped output ∧
      R.Covers onInput y n d less swapped := by
  simp only [swapBaseOutput, bind_eq_ok, orNone_eq_ok, checkedAdd_eq_some, checkedSub_eq_some,
    Fees.protocolFee_eq_some, Fees.fundFee_eq_some, pure_eq_ok] at h
  obtain ⟨⟨swapped, cfOut⟩, hout, less, hk, ⟨input, tf, cf⟩, hin, _, ⟨_, rfl⟩, _, ⟨_, rfl⟩, _,
    ⟨_, rfl⟩, _, ⟨_, rfl⟩, rfl⟩ := h
  obtain ⟨hro, ho, hole, hcfo, hon⟩ := grossOutput_spec hout
  obtain ⟨hri, hi, hle, hcf, hcfoff, htf⟩ := grossInput_spec hin
  have hR : SwapResult.of x y t c p f onInput input less swapped output =
      ⟨x + less, y - swapped, input, output, tf, tf * p / feeRateDenominatorValue,
        tf * f / feeRateDenominatorValue, cf⟩ :=
    SwapResult.of_eq hcf (fun h => (hcfoff h).trans hcfo) htf
  refine ⟨less, swapped, input, hro, hri, ho, hk, hi, hR.symm, ?_⟩
  dsimp only
  rw [← hR]
  obtain ⟨_, _, _, _, hb, _⟩ := OracleCurve.swapBaseOutputWithoutFees_spec hk
  exact SwapResult.of_covers hle hole hon hb (OracleCurve.swapBaseOutputWithoutFees_spot hk)

end CurveCalculator

end

end NomadAmm

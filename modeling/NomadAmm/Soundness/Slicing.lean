import NomadAmm.Soundness.Legs

/-! An order cut into slices. The virtual reserves are centred on the quote again after
every swap, so the second slice starts without the slippage of the first and two slices
can buy more than one order. What slicing cannot avoid are the fees and the quote: the
slices put no more on the curve than the order does, and the curve never pays above the
quoted spot. -/

namespace NomadAmm.Soundness.Slicing

open Lib.Rounding Lib.Transition Exec
open Soundness.Settlement Soundness.Ledger Soundness.Solvency Soundness.ShareValue
open Soundness.Legs

variable {m m' : Market} {direction : TradeDirection} {onInput : Bool}

/-- One slice at the cached quote of its direction. -/
theorem slice_spec {env : Env} {amount minimum user n d : Nat} {toVault : Bool}
    {receipt : SwapReceipt} (hm : Sound m) (hskew : m.poolState.inventorySkewEnabled = 0)
    (hfree : FeeFree (env.mint direction.input))
    (hon : m.poolState.isCreatorFeeOnInput direction = .ok onInput)
    (hspot : m.poolState.rawSpot direction = some (n, d))
    (h : Instructions.swapBaseInput m env direction.input direction.output amount minimum user
      toVault = .ok (m', receipt)) :
    ∃ less swapped, Leg m direction onInput amount n d receipt.result less swapped ∧
      Sound m' ∧ quoted m'.poolState = quoted m.poolState ∧ m'.ammConfig = m.ammConfig := by
  obtain ⟨cached, p, less, swapped, hcached, hprice, hleg, hm', hpool, hconfig⟩ :=
    swapBaseInput_leg hm hfree hon h
  obtain ⟨hside, -⟩ := priceSwap_sides hprice
  have hdirection := TradeDirection.eq_of_input_eq hside
  have hspot' := rawSpot_of_price hskew hcached hprice
  rw [← hdirection, hspot] at hspot'
  simp only [Option.some.injEq, Prod.mk.injEq] at hspot'
  obtain ⟨rfl, rfl⟩ := hspot'
  exact ⟨less, swapped, hleg, hm', hpool, hconfig⟩

/-- What a leg delivers is worth no more than what it puts on the curve. -/
theorem leg_output_le {amount n d less swapped : Nat} {R : SwapResult}
    (h : Leg m direction onInput amount n d R less swapped) :
    R.outputAmount * d * feeRateDenominatorValue ≤
      less * n * (feeRateDenominatorValue - outputRate m onInput) := by
  calc R.outputAmount * d * feeRateDenominatorValue
      = R.outputAmount * feeRateDenominatorValue * d := by ring
    _ ≤ swapped * (feeRateDenominatorValue - outputRate m onInput) * d :=
        Nat.mul_le_mul_right _ h.output
    _ = swapped * d * (feeRateDenominatorValue - outputRate m onInput) := by ring
    _ ≤ less * n * (feeRateDenominatorValue - outputRate m onInput) :=
        Nat.mul_le_mul_right _ h.spot

/-- **Slicing avoids neither the fees nor the quote.** In a reachable pool without skew,
two slices of an order put no more on the curve than the order in one piece would, and
together they deliver no more than the quoted spot pays for that. What they gain over the
order in one piece is at most its slippage. -/
theorem slices_le_spot (m m₁ m₂ m₃ : Market) (hm : m.Reachable)
    (hskew : m.poolState.inventorySkewEnabled = 0) (direction : TradeDirection) (onInput : Bool)
    (hon : m.poolState.isCreatorFeeOnInput direction = .ok onInput) (n d : Nat)
    (hspot : m.poolState.rawSpot direction = some (n, d)) (env₁ env₂ env₃ : Env)
    (hfree₁ : FeeFree (env₁.mint direction.input)) (hfree₂ : FeeFree (env₂.mint direction.input))
    (hfree₃ : FeeFree (env₃.mint direction.input))
    (a₁ a₂ minimum₁ minimum₂ minimum₃ user₁ user₂ user₃ : Nat) (toVault₁ toVault₂ toVault₃ : Bool)
    (R₁ R₂ R₃ : SwapReceipt)
    (h₁ : Instructions.swapBaseInput m env₁ direction.input direction.output a₁ minimum₁ user₁
      toVault₁ = .ok (m₁, R₁))
    (h₂ : Instructions.swapBaseInput m₁ env₂ direction.input direction.output a₂ minimum₂ user₂
      toVault₂ = .ok (m₂, R₂))
    (h₃ : Instructions.swapBaseInput m env₃ direction.input direction.output (a₁ + a₂) minimum₃
      user₃ toVault₃ = .ok (m₃, R₃)) :
    let less₁ := R₁.result.newInputVaultAmount - m.net direction.input
    let less₂ := R₂.result.newInputVaultAmount - m₁.net direction.input
    let less₃ := R₃.result.newInputVaultAmount - m.net direction.input
    less₁ + less₂ ≤ less₃ ∧
      (R₁.result.outputAmount + R₂.result.outputAmount) * d * feeRateDenominatorValue ≤
        less₃ * n * (feeRateDenominatorValue - outputRate m onInput) := by
  have hsound := reachable_sound hm
  obtain ⟨less₁, swapped₁, hleg₁, hm₁, hpool, hconfig⟩ :=
    slice_spec hsound hskew hfree₁ hon hspot h₁
  have hskew₁ := (congrArg PoolState.inventorySkewEnabled hpool).trans hskew
  have hon₁ := (congrArg (fun s => s.isCreatorFeeOnInput direction) hpool).trans hon
  have hspot₁ := (congrArg (fun s => s.rawSpot direction) hpool).trans hspot
  obtain ⟨less₂, swapped₂, hleg₂, -⟩ := slice_spec hm₁ hskew₁ hfree₂ hon₁ hspot₁ h₂
  obtain ⟨less₃, swapped₃, hleg₃, -⟩ := slice_spec hsound hskew hfree₃ hon hspot h₃
  obtain ⟨hin, hout⟩ := rates_congr hpool hconfig onInput
  rw [hleg₁.curve, hleg₂.curve, hleg₃.curve, Nat.add_sub_cancel_left, Nat.add_sub_cancel_left,
    Nat.add_sub_cancel_left]
  have hless : less₁ + less₂ ≤ less₃ := by
    rw [hleg₁.charged, hleg₂.charged, hleg₃.charged, hin]
    exact lessFee_add_le _ _ _ _
  refine ⟨hless, ?_⟩
  have hfirst := leg_output_le hleg₁
  have hsecond := leg_output_le hleg₂
  rw [hout] at hsecond
  calc (R₁.result.outputAmount + R₂.result.outputAmount) * d * feeRateDenominatorValue
      = R₁.result.outputAmount * d * feeRateDenominatorValue +
          R₂.result.outputAmount * d * feeRateDenominatorValue := by ring
    _ ≤ less₁ * n * (feeRateDenominatorValue - outputRate m onInput) +
          less₂ * n * (feeRateDenominatorValue - outputRate m onInput) :=
        Nat.add_le_add hfirst hsecond
    _ = (less₁ + less₂) * n * (feeRateDenominatorValue - outputRate m onInput) := by ring
    _ ≤ less₃ * n * (feeRateDenominatorValue - outputRate m onInput) :=
        Nat.mul_le_mul_right _ (Nat.mul_le_mul_right _ hless)

/-- The example pool quoted at one for one. -/
def slicedPool : Market := replay Market.step examplePool [examplePush 100000000 100000000 0]

/-- One slice of token_0 sold. -/
def slice (m : Market) (amount : Nat) : Exec (Market × SwapReceipt) :=
  Instructions.swapBaseInput m (exampleEnv 1100) .token0 .token1 amount 0 amount false

/-- What slices sold one after the other deliver in all. -/
def deliver (m : Market) : List Nat → Exec Nat
  | [] => pure 0
  | amount :: amounts => do
    let (m', receipt) ← slice m amount
    let rest ← deliver m' amounts
    pure (receipt.result.outputAmount + rest)

/-- Two slices of 50 deliver 94.92, one order of 100 delivers 90.62. -/
theorem slices_beat_order :
    slicedPool.Reachable ∧ slicedPool.poolState.inventorySkewEnabled = 0 ∧
      deliver slicedPool [50000000, 50000000] = .ok 94920694 ∧
      deliver slicedPool [100000000] = .ok 90619742 := by
  refine ⟨examplePool_reachable.replay [_], rfl, ?_, ?_⟩
  · decide +kernel
  · decide +kernel

/-- The same slices keep to the fees and to the quote. -/
theorem slices_le_spot_slicedPool :
    ∃ m₁ m₂ m₃ R₁ R₂ R₃, slice slicedPool 50000000 = .ok (m₁, R₁) ∧
      slice m₁ 50000000 = .ok (m₂, R₂) ∧ slice slicedPool 100000000 = .ok (m₃, R₃) ∧
      R₁.result.newInputVaultAmount - slicedPool.net .token0 +
          (R₂.result.newInputVaultAmount - m₁.net .token0) ≤
        R₃.result.newInputVaultAmount - slicedPool.net .token0 ∧
      (R₁.result.outputAmount + R₂.result.outputAmount) * 100000000 * feeRateDenominatorValue ≤
        (R₃.result.newInputVaultAmount - slicedPool.net .token0) * 100000000 *
          (feeRateDenominatorValue - outputRate slicedPool true) := by
  obtain ⟨⟨m₂, R₂⟩, h⟩ := exists_of_isOk (show (slice slicedPool 50000000 >>= fun r =>
    slice r.1 50000000).toOption.isSome = true by decide +kernel)
  obtain ⟨⟨m₁, R₁⟩, h₁, h₂⟩ := bind_eq_ok.mp h
  obtain ⟨⟨m₃, R₃⟩, h₃⟩ := exists_of_isOk
    (show (slice slicedPool 100000000).toOption.isSome = true by decide +kernel)
  exact ⟨m₁, m₂, m₃, R₁, R₂, R₃, h₁, h₂, h₃,
    slices_le_spot slicedPool m₁ m₂ m₃ (examplePool_reachable.replay [_]) rfl .zeroForOne true rfl
      100000000 100000000 (by decide +kernel) _ _ _ (.inl rfl) (.inl rfl) (.inl rfl) 50000000
      50000000 0 0 0 _ _ _ false false false R₁ R₂ R₃ h₁ h₂ h₃⟩

end NomadAmm.Soundness.Slicing

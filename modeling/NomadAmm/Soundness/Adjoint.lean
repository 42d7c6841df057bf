import NomadAmm.Curve.Calculator

/-! Exact-in and exact-out are two readings of one curve. Every stage of the
exact-out path is the lower adjoint of the matching stage of the exact-in path
(fee, kernel, creator fee), so the composed quotes are adjoint as well, in both
creator-fee modes and through all five roundings. What either path charges is a function
of the input alone. -/

namespace NomadAmm.Soundness.Adjoint

open Lib.Checked Lib.Rounding Exec CurveCalculator

variable {x y n d t c p f input output less swapped xV yV : Nat} {onInput : Bool}
  {R S : SwapResult}

/-- The exact-in swap as three upper adjoints in a row. -/
theorem swapBaseInput_eq (hr : t + c < feeRateDenominatorValue)
    (h : swapBaseInput input x y t c p f onInput n d = .ok S) :
    ∃ xV yV, virtualReserves x y n d = some (xV, yV) ∧
      0 < xV + lessFee feeRateDenominatorValue (inputFeeRate onInput t c) input ∧
      productOut xV yV (lessFee feeRateDenominatorValue (inputFeeRate onInput t c) input) < y ∧
      S.outputAmount = lessFee feeRateDenominatorValue (outputFeeRate onInput c)
        (productOut xV yV
          (lessFee feeRateDenominatorValue (inputFeeRate onInput t c) input)) := by
  obtain ⟨less, swapped, output, rfl, _, hk, rfl, rfl, _⟩ := swapBaseInput_spec h
  rw [sub_fee_eq_lessFee feeRateDenominatorValue_pos (inputFeeRate_lt onInput hr).le] at hk
  obtain ⟨xV, yV, hv, hpos, rfl, hlt⟩ := OracleCurve.swapBaseInputWithoutFees_spec hk
  refine ⟨xV, yV, hv, hpos, hlt, ?_⟩
  exact sub_fee_eq_lessFee feeRateDenominatorValue_pos (outputFeeRate_lt onInput hr).le _

/-- The exact-out swap as three lower adjoints in a row. -/
theorem swapBaseOutput_eq (h : swapBaseOutput output x y t c p f onInput n d = .ok R) :
    ∃ xV yV, virtualReserves x y n d = some (xV, yV) ∧
      grossUp feeRateDenominatorValue (outputFeeRate onInput c) output < yV ∧
      R.inputAmount = grossUp feeRateDenominatorValue (inputFeeRate onInput t c)
        (productIn xV yV
          (grossUp feeRateDenominatorValue (outputFeeRate onInput c) output)) := by
  obtain ⟨less, swapped, input, _, _, rfl, hk, rfl, rfl, _⟩ := swapBaseOutput_spec h
  obtain ⟨xV, yV, hv, hyV, _, rfl⟩ := OracleCurve.swapBaseOutputWithoutFees_spec hk
  exact ⟨xV, yV, hv, hyV, rfl⟩

/-- What an exact-out quote asks for buys at least what was asked of it. -/
theorem exactIn_of_exactOut_ge (hr : t + c < feeRateDenominatorValue)
    (hR : swapBaseOutput output x y t c p f onInput n d = .ok R)
    (hS : swapBaseInput R.inputAmount x y t c p f onInput n d = .ok S) :
    output ≤ S.outputAmount := by
  obtain ⟨xV, yV, hv, hyV, hin⟩ := swapBaseOutput_eq hR
  obtain ⟨xV', yV', hv', hpos, _, hout⟩ := swapBaseInput_eq hr hS
  obtain ⟨rfl, rfl⟩ := Prod.mk.inj (Option.some.inj (hv.symm.trans hv'))
  rw [hin, lessFee_grossUp (inputFeeRate_lt onInput hr)] at hout hpos
  rw [hout, ← gc_fee (outputFeeRate_lt onInput hr), ← productIn_le_iff hyV hpos]

/-- A positive curve output stays strictly inside the virtual reserve. -/
theorem swapped_lt_virtual (hv : virtualReserves x y n d = some (xV, yV))
    (hpos : 0 < productOut xV yV less) : productOut xV yV less < yV := by
  have hy : 0 < yV := by
    rcases Nat.eq_zero_or_pos yV with rfl | hy
    · simp [productOut] at hpos
    · exact hy
  have hx : 0 < xV := by
    rcases Nat.eq_zero_or_pos xV with rfl | hx
    · have hspot := virtualReserves_spot hv
      obtain ⟨_, _, _, hd, _⟩ := virtualReserves_eq_some.mp hv
      rw [Nat.zero_mul] at hspot
      exact absurd (Nat.le_of_lt_succ (Nat.lt_succ_of_le hspot)) (by
        have := Nat.mul_pos hy (Nat.pos_of_ne_zero hd); omega)
    · exact hx
  exact productOut_lt hx hy

/-! ## The exact-out path answers whenever exact-in did -/

theorem grossOutput_of_fits (onInput : Bool) (hr : t + c < feeRateDenominatorValue)
    (ho : output < 2 ^ 64) :
    ∃ cf, grossOutput output c onInput =
      .ok (grossUp feeRateDenominatorValue (outputFeeRate onInput c) output, cf) := by
  have hlt := outputFeeRate_lt onInput hr
  have hD : feeRateDenominatorValue = 1000000 := rfl
  cases onInput with
  | true =>
    refine ⟨0, ?_⟩
    simp [grossOutput, outputFeeRate, grossUp_zero, pure, Except.pure]
  | false =>
    simp only [outputFeeRate, Bool.false_eq_true, if_false] at hlt ⊢
    have hle := (gc_fee hlt).le_u_l output
    simp only [grossOutput, Bool.false_eq_true, if_false, bind_eq_ok, orNone_eq_ok, unwrap_eq_ok,
      checkedSub_eq_some, pure_eq_ok, Prod.mk.injEq]
    exact ⟨_, _, Fees.calculatePreFeeAmount_of_fits hlt (by rw [hD]; omega), _,
      ⟨hle.trans (lessFee_le _ _ _), rfl⟩, rfl, rfl⟩

theorem grossInput_of_fits (onInput : Bool) (cfOut : Nat) (hr : t + c < feeRateDenominatorValue)
    (hin : grossUp feeRateDenominatorValue (inputFeeRate onInput t c) less < 2 ^ 64) :
    ∃ tf cf, grossInput less t c cfOut onInput =
        .ok (grossUp feeRateDenominatorValue (inputFeeRate onInput t c) less, tf, cf) ∧
      tf < 2 ^ 64 := by
  have hlt := inputFeeRate_lt onInput hr
  have hle := ((gc_fee hlt).le_u_l less).trans (lessFee_le _ _ _)
  have hD : feeRateDenominatorValue = 1000000 := rfl
  have hg : ∀ r, r < feeRateDenominatorValue →
      Fees.calculatePreFeeAmount less r = some (grossUp feeRateDenominatorValue r less) :=
    fun r hr => Fees.calculatePreFeeAmount_of_fits hr (by rw [hD]; omega)
  cases onInput with
  | true =>
    simp only [inputFeeRate, if_true] at hin hlt hle ⊢
    set total := grossUp feeRateDenominatorValue (t + c) less - less with htotal
    have hsmall : total * c < 2 ^ 128 := by
      calc total * c ≤ 2 ^ 64 * 1000000 := Nat.mul_le_mul (by omega) (by omega)
        _ < 2 ^ 128 := by norm_num
    simp only [grossInput, if_true, bind_eq_ok, orNone_eq_ok, unwrap_eq_ok, checkedAdd_eq_some,
      checkedSub_eq_some, pure_eq_ok, Prod.mk.injEq]
    refine ⟨_, _, ⟨_, ⟨by omega, rfl⟩, _, hg _ hlt, _, ⟨hle, rfl⟩, (_, _),
      splitTotalFee_eq_ok.mpr ⟨.inr ⟨by omega, hsmall⟩, rfl, rfl⟩, rfl, rfl, rfl⟩,
      (Nat.sub_le _ _).trans_lt (by omega)⟩
  | false =>
    simp only [inputFeeRate, Bool.false_eq_true, if_false] at hin hlt hle ⊢
    simp only [grossInput, Bool.false_eq_true, if_false, bind_eq_ok, unwrap_eq_ok,
      checkedSub_eq_some, pure_eq_ok, Prod.mk.injEq]
    exact ⟨_, _, ⟨_, hg _ hlt, _, ⟨hle, rfl⟩, rfl, rfl, rfl⟩, by omega⟩

theorem swapBaseOutput_of_fits (hx : x < 2 ^ 64) (hy : y < 2 ^ 64) (hx0 : x ≠ 0) (hy0 : y ≠ 0)
    (hr : t + c < feeRateDenominatorValue) (hpf : p + f ≤ feeRateDenominatorValue)
    (hv : virtualReserves x y n d = some (xV, yV)) (ho : output < 2 ^ 64)
    (hs : swapped = grossUp feeRateDenominatorValue (outputFeeRate onInput c) output)
    (hsV : swapped < yV) (hsy : swapped < y) (hl : less = productIn xV yV swapped)
    (hin : grossUp feeRateDenominatorValue (inputFeeRate onInput t c) less < 2 ^ 64) :
    ∃ R, swapBaseOutput output x y t c p f onInput n d = .ok R := by
  subst hs hl
  have hD : feeRateDenominatorValue = 1000000 := rfl
  obtain ⟨cfOut, hout⟩ := grossOutput_of_fits onInput hr ho
  obtain ⟨tf, cf, hgin, htf⟩ := grossInput_of_fits onInput cfOut hr hin
  have hle := ((gc_fee (inputFeeRate_lt onInput hr)).le_u_l
    (productIn xV yV (grossUp feeRateDenominatorValue (outputFeeRate onInput c) output))).trans
    (lessFee_le _ _ _)
  have hk := OracleCurve.swapBaseOutputWithoutFees_of_fits hv hx0 hy0 hsV hsy (by omega) (by omega)
  have hshare : ∀ q, q ≤ feeRateDenominatorValue → tf * q < 2 ^ 128 := by
    intro q hq
    calc tf * q ≤ 2 ^ 64 * 1000000 := Nat.mul_le_mul (by omega) (by omega)
      _ < 2 ^ 128 := by norm_num
  simp only [swapBaseOutput, bind_eq_ok, orNone_eq_ok, checkedAdd_eq_some, checkedSub_eq_some,
    Fees.protocolFee_eq_some, Fees.fundFee_eq_some, pure_eq_ok]
  exact ⟨_, (_, _), hout, _, hk, (_, _, _), hgin, _, ⟨hshare p (by omega), rfl⟩, _,
    ⟨hshare f (by omega), rfl⟩, _, ⟨by omega, rfl⟩, _, ⟨hsy.le, rfl⟩, rfl⟩

/-- Anything an exact-in swap delivers can be bought exact-out for no more. -/
theorem exactOut_of_exactIn_le (hx : x < 2 ^ 64) (hy : y < 2 ^ 64) (hx0 : x ≠ 0) (hy0 : y ≠ 0)
    (hr : t + c < feeRateDenominatorValue) (hpf : p + f ≤ feeRateDenominatorValue)
    (hI : input < 2 ^ 64) (hS : swapBaseInput input x y t c p f onInput n d = .ok S)
    (ho : 1 ≤ output) (hoS : output ≤ S.outputAmount) :
    ∃ R, swapBaseOutput output x y t c p f onInput n d = .ok R ∧ R.inputAmount ≤ input := by
  obtain ⟨xV, yV, hv, hpos, hlt, hout⟩ := swapBaseInput_eq hr hS
  have hin := inputFeeRate_lt onInput hr
  have hon := outputFeeRate_lt onInput hr
  rw [hout, ← gc_fee hon] at hoS
  have hgross := ((gc_fee hon).le_u_l output).trans (lessFee_le _ _ _)
  have hV := swapped_lt_virtual hv (show 0 < productOut xV yV
    (lessFee feeRateDenominatorValue (inputFeeRate onInput t c) input) by omega)
  -- kernel and input fee by adjunction
  have hkernel := (productIn_le_iff (hoS.trans_lt hV) hpos).mpr hoS
  have hpay := (gc_fee hin _ _).mpr hkernel
  obtain ⟨R, hR⟩ : ∃ R, swapBaseOutput output x y t c p f onInput n d = .ok R :=
    swapBaseOutput_of_fits hx hy hx0 hy0 hr hpf hv (by omega) rfl (hoS.trans_lt hV) (by omega) rfl
      (hpay.trans_lt hI)
  obtain ⟨xV', yV', hv', _, heq⟩ := swapBaseOutput_eq hR
  obtain ⟨rfl, rfl⟩ := Prod.mk.inj (Option.some.inj (hv.symm.trans hv'))
  exact ⟨R, hR, heq.trans_le hpay⟩

/-- **Exact-in and exact-out are adjoint.** An exact-out quote buys what it
promises; whatever an exact-in swap delivers is on sale exact-out for at most the
same input; so the exact-out quote is the least input that buys the output. -/
theorem swapBaseInput_swapBaseOutput_adjoint (x y n d t c p f : Nat) (onInput : Bool)
    (hx : 1 ≤ x) (hx64 : x < 2 ^ 64) (hy : 1 ≤ y) (hy64 : y < 2 ^ 64)
    (hr : t + c < feeRateDenominatorValue) (hpf : p + f ≤ feeRateDenominatorValue) :
    (∀ O R S, swapBaseOutput O x y t c p f onInput n d = .ok R →
      swapBaseInput R.inputAmount x y t c p f onInput n d = .ok S → O ≤ S.outputAmount) ∧
    (∀ I S, I < 2 ^ 64 → swapBaseInput I x y t c p f onInput n d = .ok S →
      1 ≤ S.outputAmount →
      ∃ R, swapBaseOutput S.outputAmount x y t c p f onInput n d = .ok R ∧ R.inputAmount ≤ I) ∧
    (∀ O R I S, 1 ≤ O → swapBaseOutput O x y t c p f onInput n d = .ok R → I < 2 ^ 64 →
      swapBaseInput I x y t c p f onInput n d = .ok S → O ≤ S.outputAmount →
      R.inputAmount ≤ I) := by
  refine ⟨fun O R S hR hS => exactIn_of_exactOut_ge hr hR hS, ?_, ?_⟩
  · intro I S hI hS ho
    exact exactOut_of_exactIn_le hx64 hy64 (by omega) (by omega) hr hpf hI hS ho le_rfl
  · intro O R I S ho hR hI hS hoS
    obtain ⟨R', hR', hle⟩ :=
      exactOut_of_exactIn_le hx64 hy64 (by omega) (by omega) hr hpf hI hS ho hoS
    rw [hR] at hR'
    exact Except.ok.inj hR' ▸ hle

/-- A pool at 0.16 with a creator fee on the output: what 50 000 000 buys is on sale
exact-out for no more. -/
theorem swapBaseInput_swapBaseOutput_adjoint_pool :
    ∃ R, swapBaseOutput 7932456 10000000000 1600000000 2500 1000 120000 40000 false 16 100 =
      .ok R ∧ R.inputAmount ≤ 50000000 := by
  have hin : swapBaseInput 50000000 10000000000 1600000000 2500 1000 120000 40000 false 16 100 =
      .ok ⟨10049875000, 1592059603, 50000000, 7932456, 125000, 15000, 5000, 7941⟩ := by
    decide +kernel
  have hadj := swapBaseInput_swapBaseOutput_adjoint 10000000000 1600000000 16 100 2500 1000 120000
    40000 false (by norm_num) (by norm_num) (by norm_num) (by norm_num)
    (by norm_num [feeRateDenominatorValue]) (by norm_num [feeRateDenominatorValue])
  obtain ⟨R, hR, hle⟩ := hadj.2.1 50000000 _ (by norm_num) hin (by norm_num)
  exact ⟨R, hR, hle⟩

/-! ## One charge for one input -/

/-- Whichever end a swap starts from, what its input amount leaves for the curve is one
number. -/
theorem less_eq (hR : swapBaseOutput output x y t c p f onInput n d = .ok R)
    (hS : swapBaseInput R.inputAmount x y t c p f onInput n d = .ok S) :
    ∃ less swapped swapped' output',
      R = SwapResult.of x y t c p f onInput R.inputAmount less swapped output ∧
      S = SwapResult.of x y t c p f onInput R.inputAmount less swapped' output' := by
  obtain ⟨less, swapped, input, -, hrate, -, -, hgross, hR', -⟩ := swapBaseOutput_spec hR
  obtain ⟨less', swapped', output', hless', -, -, -, hS', -⟩ := swapBaseInput_spec hS
  have hinput : R.inputAmount = input := by
    rw [hR']
    rfl
  have hless : less' = less := by
    rw [hless', sub_fee_eq_lessFee feeRateDenominatorValue_pos hrate.le, hinput, hgross,
      lessFee_grossUp hrate]
  rw [hless] at hS'
  rw [← hinput] at hR'
  exact ⟨less, swapped, swapped', output', hR', hS'⟩

/-- Amounts of the token programs are far from the width of the fee arithmetic. -/
theorem tradingFee_grossUp {a r : Nat} (ha : a < 2 ^ 64) (hr : r < feeRateDenominatorValue) :
    Fees.tradingFee (grossUp feeRateDenominatorValue r a) r =
      some (grossUp feeRateDenominatorValue r a - a) := by
  have hD : feeRateDenominatorValue = 1000000 := rfl
  have hle := ((gc_fee hr).le_u_l a).trans (lessFee_le _ _ _)
  have hgross : grossUp feeRateDenominatorValue r a ≤ a * feeRateDenominatorValue :=
    (ceilDiv_le_iff (by omega)).mpr (Nat.le_mul_of_pos_right _ (by omega))
  have hwide : grossUp feeRateDenominatorValue r a * r ≤ 2 ^ 64 * 1000000 * 1000000 :=
    Nat.mul_le_mul (hgross.trans (Nat.mul_le_mul ha.le hD.le)) (by omega)
  have hfee := fee_le feeRateDenominatorValue_pos hr.le (grossUp feeRateDenominatorValue r a)
  have hrest := sub_fee_eq_lessFee feeRateDenominatorValue_pos hr.le
    (grossUp feeRateDenominatorValue r a)
  rw [lessFee_grossUp hr] at hrest
  exact Fees.tradingFee_eq_some.mpr ⟨by omega, by omega⟩

/-- **Both paths charge the same fees for the same input.** Grossing an amount up and
charging it again is exact for every rate below the denominator. -/
theorem swapBaseInput_swapBaseOutput_fees (x y n d t c p f : Nat) (onInput : Bool) :
    (∀ O R S, swapBaseOutput O x y t c p f onInput n d = .ok R →
      swapBaseInput R.inputAmount x y t c p f onInput n d = .ok S →
      S.tradeFee = R.tradeFee ∧ S.protocolFee = R.protocolFee ∧ S.fundFee = R.fundFee ∧
        S.newInputVaultAmount = R.newInputVaultAmount ∧
        (onInput = true → S.creatorFee = R.creatorFee)) ∧
    (∀ a r g fee, r < feeRateDenominatorValue → Fees.calculatePreFeeAmount a r = some g →
      Fees.tradingFee g r = some fee → fee ≤ g ∧ g - fee = a) ∧
    ∀ a r, a < 2 ^ 64 → r < feeRateDenominatorValue →
      ∃ g, Fees.calculatePreFeeAmount a r = some g ∧ Fees.tradingFee g r = some (g - a) := by
  refine ⟨?_, ?_, ?_⟩
  · intro O R S hR hS
    obtain ⟨less, swapped, swapped', output', hR', hS'⟩ := less_eq hR hS
    rw [hR', hS']
    cases onInput with
    | true => exact ⟨rfl, rfl, rfl, rfl, fun _ => rfl⟩
    | false => exact ⟨rfl, rfl, rfl, rfl, fun h => by cases h⟩
  · intro a r g fee hr hg hfee
    obtain ⟨_, rfl⟩ := Fees.calculatePreFeeAmount_spec hg
    obtain ⟨_, rfl⟩ := Fees.tradingFee_eq_some.mp hfee
    refine ⟨fee_le feeRateDenominatorValue_pos hr.le _, ?_⟩
    rw [sub_fee_eq_lessFee feeRateDenominatorValue_pos hr.le, lessFee_grossUp hr]
  · intro a r ha hr
    have hD : feeRateDenominatorValue = 1000000 := rfl
    exact ⟨_, Fees.calculatePreFeeAmount_of_fits hr (by rw [hD]; omega), tradingFee_grossUp ha hr⟩

/-- A pool at 0.16 with a creator fee on the input: the quote for 7 932 456, charged again. -/
theorem swapBaseInput_swapBaseOutput_fees_pool :
    ∃ R S, swapBaseOutput 7932456 10000000000 1600000000 2500 1000 120000 40000 true 16 100 =
        .ok R ∧
      swapBaseInput R.inputAmount 10000000000 1600000000 2500 1000 120000 40000 true 16 100 =
        .ok S ∧ S.tradeFee = R.tradeFee ∧ S.creatorFee = R.creatorFee := by
  obtain ⟨S, h⟩ := exists_of_isOk (show (swapBaseOutput 7932456 10000000000 1600000000 2500 1000
    120000 40000 true 16 100 >>= fun R => swapBaseInput R.inputAmount 10000000000 1600000000 2500
    1000 120000 40000 true 16 100).toOption.isSome = true by decide +kernel)
  obtain ⟨R, hR, hS⟩ := bind_eq_ok.mp h
  obtain ⟨htrade, -, -, -, hcreator⟩ := (swapBaseInput_swapBaseOutput_fees 10000000000 1600000000 16
    100 2500 1000 120000 40000 true).1 7932456 R S hR hS
  exact ⟨R, S, hR, hS, htrade, hcreator rfl⟩

end NomadAmm.Soundness.Adjoint

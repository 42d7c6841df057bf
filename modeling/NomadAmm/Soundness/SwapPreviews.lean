import NomadAmm.Client.Swaps
import NomadAmm.Soundness.ClientFees
import NomadAmm.Soundness.Skew

/-! The swap commands of the command line against the program. They leave out the skew,
and where the program applies none to a swap they compute exactly what it does, fees of
both transfers included. -/

namespace NomadAmm.Soundness.SwapPreviews

open Lib.Checked Lib.Transition Exec Instructions
open Soundness.Settlement Soundness.ClientFees Soundness.Skew

variable {m m' : Market} {env : Env} {inputVault outputVault : TokenSide} {q : SwapQuote}
  {cached : Int × Int × Int} {p : Pricing} {receipt : SwapReceipt}

/-! ## The price -/

theorem commandDirection_input (direction : TradeDirection) :
    Client.commandDirection (some direction.input) = direction := by
  cases direction <;> rfl

/-- A swap without skew is priced as the command previews it. -/
theorem previewSpotRate_of_price (hcached : m.poolState.cachedOracleQuote = some cached)
    (hprice : priceSwap m inputVault outputVault cached = .ok p)
    (hskew : p.quote.inventorySkewBps = 0) :
    Client.previewSpotRate m.poolState p.params.tradeDirection = some (p.spotNum, p.spotDen) := by
  obtain ⟨-, -, hquote, ⟨canonical, hcanonical, horient⟩, -⟩ := priceSwap_spec hprice
  obtain ⟨bid, ask, exponent⟩ := cached
  obtain ⟨hbid, hask⟩ := (skewedQuote_spec hquote rfl).unskewed hskew
  simp only [Client.previewSpotRate, hcached, bind, Option.bind_some]
  cases hdir : p.params.tradeDirection with
  | zeroForOne =>
    rw [hdir] at hcanonical horient
    simp only [SkewedQuote.effectiveMantissa, hbid] at hcanonical
    simp only [hcanonical, Option.bind_some]
    rw [← horient]
    rfl
  | oneForZero =>
    rw [hdir] at hcanonical horient
    simp only [SkewedQuote.effectiveMantissa, hask] at hcanonical
    simp only [hcanonical, Option.bind_some]
    rw [← horient]
    rfl

/-- The curve is run on the same reserves, at the same rates and price. -/
theorem previewCurve_of_runCurve {curve : Nat → Nat → Nat → Nat → Nat → Nat → Nat → Bool → Nat →
      Nat → Exec SwapResult} {amount : Nat} {result : SwapResult}
    (hcached : m.poolState.cachedOracleQuote = some cached)
    (hprice : priceSwap m inputVault outputVault cached = .ok p)
    (hskew : p.quote.inventorySkewBps = 0) (hcurve : runCurve curve m p amount = .ok result) :
    ∃ total, m.poolState.vaultAmountWithoutFee m.vault.token0 m.vault.token1 = .ok total ∧
      Client.previewCurve curve m p.params.tradeDirection total amount = .ok result := by
  have hspot := previewSpotRate_of_price hcached hprice hskew
  obtain ⟨hparams, -, -, -, htrade, hcreator⟩ := priceSwap_spec hprice
  obtain ⟨rfl, rfl, hon, total, price, htotal, -, hx, hy, -⟩ := PoolState.getSwapParams_spec hparams
  refine ⟨total, htotal, ?_⟩
  rw [runCurve, hx, hy, htrade, hcreator] at hcurve
  simp only [Client.previewCurve, hspot, unwrap, hon, Client.unwrapOk, ok_bind, hcurve]

/-! ## The commands -/

/-- A quote of the program is what the command previews, whatever the minimum. -/
theorem swapBaseIn_of_quote (amountWithSlippage : Nat → Bool → Nat) {amountIn minimum : Nat}
    (h : quoteBaseInput m env inputVault outputVault amountIn minimum = .ok q)
    (hskew : q.pricing.quote.inventorySkewBps = 0) :
    ∃ command, Client.swapBaseIn amountWithSlippage m env (some inputVault) amountIn = .ok command ∧
      command.result = q.result ∧
      command.userAmount + q.outputTransferFee = q.outputTransferAmount ∧
      command.bound = amountWithSlippage command.userAmount false ∧
      ∀ minimum', quoteBaseInput m env inputVault outputVault amountIn minimum' =
        if minimum' ≤ command.userAmount then .ok q else .error (.code .exceededSlippage) := by
  simp only [quoteBaseInput, bind_eq_ok, require_eq_ok, unwrap_eq_ok, checkedSub_eq_some,
    pure_eq_ok] at h
  obtain ⟨cached, hopen, fee, hfee, _, hpos, pricing, hprice, result, hcurve, inputAmount, hinput,
    _, hsame, amountOut, hout, outFee, houtFee, received, ⟨hle, rfl⟩, _, hreceived, _, -, rfl⟩ := h
  obtain ⟨hcached, -⟩ := openSwap_eq_ok.mp hopen
  obtain ⟨total, htotal, hpreview⟩ := previewCurve_of_runCurve hcached hprice hskew hcurve
  obtain ⟨hin, hvault, -⟩ := priceSwap_sides hprice
  have hclientFee := clientFee_of_fee hfee
  have hclientOutFee := clientFee_of_fee houtFee
  rw [hin] at hclientFee
  rw [hvault] at hclientOutFee
  have hnet : checkedSub amountOut outFee = some (amountOut - outFee) :=
    checkedSub_eq_some.mpr ⟨hle, rfl⟩
  refine ⟨⟨result, amountOut - outFee, amountWithSlippage (amountOut - outFee) false⟩, ?_, rfl,
    Nat.sub_add_cancel hle, rfl, ?_⟩
  · rw [hin]
    simp only [Client.swapBaseIn, commandDirection_input, htotal, Client.unwrapOk, ok_bind,
      hclientFee, hpreview, hout, hclientOutFee, hnet, unwrap]
    rfl
  · intro minimum'
    simp only [quoteBaseInput, hopen, hfee, require_pos hpos, hprice, hcurve, hinput,
      require_pos hsame, hout, houtFee, hnet, require_pos hreceived, unwrap, ok_bind]
    by_cases hmin : minimum' ≤ amountOut - outFee
    · rw [require_pos hmin, if_pos hmin]
      rfl
    · rw [require_neg hmin, if_neg hmin]
      rfl

theorem swapBaseOut_of_quote (amountWithSlippage : Nat → Bool → Nat) {maximum amountOut : Nat}
    (h : quoteBaseOutput m env inputVault outputVault maximum amountOut = .ok q)
    (hskew : q.pricing.quote.inventorySkewBps = 0) :
    ∃ command,
      Client.swapBaseOut amountWithSlippage m env (some inputVault) amountOut = .ok command ∧
      command.result = q.result ∧ command.userAmount = q.inputTransferAmount ∧
      command.bound = amountWithSlippage command.userAmount true ∧
      ∀ maximum', quoteBaseOutput m env inputVault outputVault maximum' amountOut =
        if command.userAmount ≤ maximum' then .ok q else .error (.code .exceededSlippage) := by
  simp only [quoteBaseOutput, bind_eq_ok, require_eq_ok, unwrap_eq_ok, pure_eq_ok] at h
  obtain ⟨_, hpos, cached, hopen, outFee, houtFee, gross, hgross, pricing, hprice, result, hcurve,
    inputAmount, hinput, _, hinputPos, inFee, hinFee, paid, hpaid, _, -, outputAmount, houtput, _,
    hsame, rfl⟩ := h
  obtain ⟨hcached, -⟩ := openSwap_eq_ok.mp hopen
  obtain ⟨total, htotal, hpreview⟩ := previewCurve_of_runCurve hcached hprice hskew hcurve
  obtain ⟨hin, hvault, -⟩ := priceSwap_sides hprice
  have hclientInFee := clientInverseFee_of_inverseFee hinFee
  have hclientOutFee := clientInverseFee_of_inverseFee houtFee
  rw [hin] at hclientInFee
  rw [hvault] at hclientOutFee
  refine ⟨⟨result, paid, amountWithSlippage paid true⟩, ?_, rfl, rfl, rfl, ?_⟩
  · rw [hin]
    simp only [Client.swapBaseOut, commandDirection_input, htotal, Client.unwrapOk, ok_bind,
      hclientOutFee, hgross, hpreview, hinput, hclientInFee, hpaid, unwrap]
    rfl
  · intro maximum'
    simp only [quoteBaseOutput, require_pos hpos, hopen, houtFee, hgross, hprice, hcurve, hinput,
      require_pos hinputPos, hinFee, hpaid, houtput, unwrap, ok_bind]
    by_cases hmax : paid ≤ maximum'
    · rw [require_pos hmax, if_pos hmax]
      simp only [ok_bind, require_pos hsame]
      rfl
    · rw [require_neg hmax, if_neg hmax]
      rfl

/-! ## The program's answer -/

/-- A pool with skew off reports none. -/
theorem quotes_skew {a b : Nat} (hq : Quotes m env inputVault outputVault a b q)
    (hoff : m.poolState.inventorySkewEnabled = 0) : q.pricing.quote.inventorySkewBps = 0 := by
  obtain ⟨less, swapped, hquoted⟩ := hq.quoted
  obtain ⟨cached, -, hprice⟩ := hquoted.cached
  obtain ⟨-, -, hquote, -⟩ := priceSwap_spec hprice
  simp only [PoolState.skewedQuote, hoff, ne_eq, not_true_eq_false, if_false, pure_eq_ok] at hquote
  rw [← hquote]

/-- **The command line previews swaps exactly.** Whenever the program makes a swap without
skew, the command on the same accounts computes the same result and the same amount for
the user, and the program makes that very swap exactly at the bounds this amount meets. -/
theorem swaps_previewed (amountWithSlippage : Nat → Bool → Nat) (m m' : Market) (env : Env)
    (inputVault outputVault : TokenSide) (a b userAmount : Nat) (toVault : Bool)
    (receipt : SwapReceipt)
    (hskew : m.poolState.inventorySkewEnabled = 0 ∨ receipt.event.inventorySkewBps = 0) :
    (swapBaseInput m env inputVault outputVault a b userAmount toVault = .ok (m', receipt) →
      ∃ command, Client.swapBaseIn amountWithSlippage m env (some inputVault) a = .ok command ∧
        command.result = receipt.result ∧
        command.userAmount + receipt.event.outputTransferFee = receipt.event.outputAmount ∧
        command.bound = amountWithSlippage command.userAmount false ∧
        ∀ minimum, swapBaseInput m env inputVault outputVault a minimum userAmount toVault =
          if minimum ≤ command.userAmount then .ok (m', receipt)
          else .error (.code .exceededSlippage)) ∧
    (swapBaseOutput m env inputVault outputVault a b userAmount toVault = .ok (m', receipt) →
      ∃ command, Client.swapBaseOut amountWithSlippage m env (some inputVault) b = .ok command ∧
        command.result = receipt.result ∧
        command.userAmount = receipt.event.inputAmount + receipt.event.inputTransferFee ∧
        command.bound = amountWithSlippage command.userAmount true ∧
        ∀ maximum, swapBaseOutput m env inputVault outputVault maximum b userAmount toVault =
          if command.userAmount ≤ maximum then .ok (m', receipt)
          else .error (.code .exceededSlippage)) := by
  constructor
  · intro h
    simp only [swapBaseInput, bind_eq_ok] at h
    obtain ⟨q, hquote, hsettle⟩ := h
    obtain ⟨hresult, hskewBps, -, hout, -, hfee⟩ := settleSwap_event hsettle
    have hzero : q.pricing.quote.inventorySkewBps = 0 := by
      rcases hskew with hoff | hnone
      · exact quotes_skew (.inl hquote) hoff
      · exact hskewBps.symm.trans hnone
    obtain ⟨less, swapped, hquoted, -⟩ := quoteBaseInput_spec hquote
    obtain ⟨command, hcommand, hsame, hpaid, hbound, hagain⟩ :=
      swapBaseIn_of_quote amountWithSlippage hquote hzero
    refine ⟨command, hcommand, hsame.trans hresult.symm, ?_, hbound, ?_⟩
    · rw [hfee, hout, hpaid, hquoted.pays]
    · intro minimum
      rw [swapBaseInput, hagain minimum]
      split
      · exact hsettle
      · rfl
  · intro h
    simp only [swapBaseOutput, bind_eq_ok] at h
    obtain ⟨q, hquote, hsettle⟩ := h
    obtain ⟨hresult, hskewBps, hin, -, hfee, -⟩ := settleSwap_event hsettle
    have hzero : q.pricing.quote.inventorySkewBps = 0 := by
      rcases hskew with hoff | hnone
      · exact quotes_skew (.inr hquote) hoff
      · exact hskewBps.symm.trans hnone
    obtain ⟨command, hcommand, hsame, hpaid, hbound, hagain⟩ :=
      swapBaseOut_of_quote amountWithSlippage hquote hzero
    refine ⟨command, hcommand, hsame.trans hresult.symm, ?_, hbound, ?_⟩
    · rw [hpaid, hin, hfee]
      exact quoteBaseOutput_paid hquote
    · intro maximum
      rw [swapBaseOutput, hagain maximum]
      split
      · exact hsettle
      · rfl

/-- A sale on the pool of the example, at a fresh quote and with no slippage allowed. -/
theorem swaps_previewed_examplePool : ∃ m' receipt command,
    swapBaseInput (next Market.step examplePool (examplePush 99900000 100100000 500))
      (exampleEnv 1100)
        .token0 .token1 1000000 0 1000000 false = .ok (m', receipt) ∧
      Client.swapBaseIn (fun amount _ => amount)
        (next Market.step examplePool (examplePush 99900000 100100000 500)) (exampleEnv 1100)
        (some .token0) 1000000 = .ok command ∧
      command.userAmount + receipt.event.outputTransferFee = receipt.event.outputAmount := by
  obtain ⟨⟨m', receipt⟩, h⟩ := exists_of_isOk (show (swapBaseInput
    (next Market.step examplePool (examplePush 99900000 100100000 500)) (exampleEnv 1100) .token0
    .token1 1000000 0 1000000 false).toOption.isSome = true by decide +kernel)
  obtain ⟨command, hcommand, -, hreceived, -⟩ := (swaps_previewed (fun amount _ => amount)
    (next Market.step examplePool (examplePush 99900000 100100000 500)) m' (exampleEnv 1100) .token0
    .token1 1000000 0 1000000 false receipt (.inl (by decide +kernel))).1 h
  exact ⟨m', receipt, command, h, hcommand, hreceived⟩

end NomadAmm.Soundness.SwapPreviews

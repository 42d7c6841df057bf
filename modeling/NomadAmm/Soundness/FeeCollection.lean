import NomadAmm.Soundness.Solvency

/-! Collecting fees leaves no trace for anyone else. A collection lowers a vault and a
counter by the same amount, and every other call reads vaults and counters through the
net reserves only. Two runs that differ in their collections are alike throughout: equal
but for vaults and counters, with equal net reserves. -/

namespace NomadAmm.Soundness.FeeCollection

open Lib.Transition Lib.Checked Exec Instructions
open Soundness.Settlement Soundness.Ledger Soundness.Solvency

variable {m m' n : Market} {env : Env} {inputVault outputVault : TokenSide} {q : SwapQuote}
  {less swapped : Nat}

/-- A pool without its fee counters and the epoch of its last change. -/
def blankPool (s : PoolState) : PoolState :=
  { s with protocolFees := ⟨0, 0⟩, fundFees := ⟨0, 0⟩, creatorFees := ⟨0, 0⟩, recentEpoch := 0 }

/-- A market without what a collection changes. -/
def blank (m : Market) : Market := { m with poolState := blankPool m.poolState, vault := ⟨0, 0⟩ }

/-- What `blank` leaves out. -/
structure Till where
  protocolFees : PerToken Nat
  fundFees : PerToken Nat
  creatorFees : PerToken Nat
  recentEpoch : Nat
  vault : PerToken Nat

def fill (m : Market) (t : Till) : Market :=
  { m with
    poolState := { m.poolState with
      protocolFees := t.protocolFees, fundFees := t.fundFees, creatorFees := t.creatorFees
      recentEpoch := t.recentEpoch }
    vault := t.vault }

def till (m : Market) : Till :=
  ⟨m.poolState.protocolFees, m.poolState.fundFees, m.poolState.creatorFees, m.poolState.recentEpoch,
    m.vault⟩

/-- **Equal but for vaults and counters, with equal net reserves.** -/
structure Alike (m n : Market) : Prop where
  left : Sound m
  right : Sound n
  same : blank n = blank m
  net : ∀ side, n.net side = m.net side

theorem Alike.symm (h : Alike m n) : Alike n m :=
  ⟨h.right, h.left, h.same.symm, fun side => (h.net side).symm⟩

theorem Alike.nets (h : Alike m n) : n.nets = m.nets := by
  unfold Market.nets
  rw [h.net, h.net]

/-- The other market, spelled with the fields of this one. -/
theorem Alike.eq_fill (h : Alike m n) : ∃ t, n = fill m t := by
  refine ⟨till n, ?_⟩
  calc n = fill (blank n) (till n) := rfl
    _ = fill (blank m) (till n) := by rw [h.same]
    _ = fill m (till n) := rfl

/-- Alike reserves raised by the same amount. -/
theorem Alike.net_raised {n' : Market} {side : TokenSide} {amount : Nat} (h : Alike m n)
    (hm : m'.vault.get side = m.vault.get side + amount) (hmo : m'.owed side = m.owed side)
    (hn : n'.vault.get side = n.vault.get side + amount) (hno : n'.owed side = n.owed side) :
    n'.net side = m'.net side := by
  have hcov := h.left.net_add_owed side
  have hcov' := h.right.net_add_owed side
  have hnet := h.net side
  unfold Market.net at hcov hcov' hnet ⊢
  omega

/-- Alike reserves lowered by the same amount, a payout back into the vault aside. -/
theorem Alike.net_lowered {n' : Market} {side : TokenSide} {amount : Nat} (h : Alike m n)
    (hle : amount ≤ m.net side) (hm : m'.vault.get side + amount = m.vault.get side)
    (hmo : m'.owed side = m.owed side) (hn : n'.vault.get side + amount = n.vault.get side)
    (hno : n'.owed side = n.owed side) : n'.net side = m'.net side := by
  have hcov := h.left.net_add_owed side
  have hcov' := h.right.net_add_owed side
  have hnet := h.net side
  unfold Market.net at hcov hcov' hnet hle ⊢
  omega

/-! ## What is read through the net reserves -/

theorem swapParams_congr (h : Alike m n) (inputVault outputVault : TokenSide) :
    n.poolState.getSwapParams inputVault outputVault (n.vault.get inputVault)
        (n.vault.get outputVault) =
      m.poolState.getSwapParams inputVault outputVault (m.vault.get inputVault)
        (m.vault.get outputVault) := by
  have hprice := tokenPriceX32_of_sound h.right
  rw [h.net, h.net, ← tokenPriceX32_of_sound h.left] at hprice
  have hnet := h.right.netAmounts
  rw [h.nets, ← h.left.netAmounts] at hnet
  have hmode : ∀ direction,
      n.poolState.isCreatorFeeOnInput direction = m.poolState.isCreatorFeeOnInput direction := by
    obtain ⟨t, rfl⟩ := h.eq_fill
    exact fun _ => rfl
  cases inputVault with
  | token0 =>
    cases outputVault with
    | token0 => rfl
    | token1 => simp only [PoolState.getSwapParams, PerToken.get, hnet, hprice, hmode]
  | token1 =>
    cases outputVault with
    | token0 => simp only [PoolState.getSwapParams, PerToken.get, hnet, hprice, hmode]
    | token1 => rfl

theorem priceSwap_congr (h : Alike m n) (inputVault outputVault : TokenSide)
    (cached : Int × Int × Int) :
    priceSwap n inputVault outputVault cached = priceSwap m inputVault outputVault cached := by
  have hparams := swapParams_congr h inputVault outputVault
  unfold priceSwap
  rw [hparams]
  obtain ⟨t, rfl⟩ := h.eq_fill
  rfl

/-- **Alike markets quote alike.** -/
theorem quoteBaseInput_congr (h : Alike m n) (amountIn minimum : Nat) :
    quoteBaseInput n env inputVault outputVault amountIn minimum =
      quoteBaseInput m env inputVault outputVault amountIn minimum := by
  unfold quoteBaseInput
  simp only [priceSwap_congr h]
  obtain ⟨t, rfl⟩ := h.eq_fill
  rfl

theorem quoteBaseOutput_congr (h : Alike m n) (maximum amountOut : Nat) :
    quoteBaseOutput n env inputVault outputVault maximum amountOut =
      quoteBaseOutput m env inputVault outputVault maximum amountOut := by
  unfold quoteBaseOutput
  simp only [priceSwap_congr h]
  obtain ⟨t, rfl⟩ := h.eq_fill
  rfl

/-! ## A settlement beside other counters -/

theorem blankPool_updateFees {s s' : PoolState} {protocolFee fundFee creatorFee : Nat}
    {direction : TradeDirection} {onInput : Bool}
    (hon : s.isCreatorFeeOnInput direction = .ok onInput)
    (h : s.updateFees protocolFee fundFee creatorFee direction = .ok s') :
    blankPool s' = blankPool s := by
  obtain ⟨-, -, -, -, rfl⟩ := (PoolState.updateFees_eq_ok hon).mp h
  rfl

/-- What two settlements of one quote leave. -/
theorem swap_alike {direction : TradeDirection} {onInput toVault : Bool} {R : SwapResult}
    {n' : Market} (h : Alike m n) (hm : Sound m') (hn : Sound n') (hsame : blank n' = blank m')
    (hs : SwapEffect m m' direction onInput toVault R)
    (hs' : SwapEffect n n' direction onInput toVault R) : Alike m' n' := by
  refine ⟨hm, hn, hsame, ?_⟩
  intro side
  have hcov := h.left.net_add_owed side
  have hcov' := h.right.net_add_owed side
  have hafter := hm.net_add_owed side
  have hafter' := hn.net_add_owed side
  have hnet := h.net side
  rcases direction.eq_input_or_output side with rfl | rfl
  · have h1 := hs.vaultInput
    have h2 := hs'.vaultInput
    have h3 := hs.owedInput
    have h4 := hs'.owedInput
    omega
  · have h1 := hs.vaultOutput
    have h2 := hs'.vaultOutput
    have h3 := hs.owedOutput
    have h4 := hs'.owedOutput
    omega

/-- **A quote that settles in one market settles in an alike one.** -/
theorem settleSwap_alike {user : Nat} {toVault : Bool} {receipt : SwapReceipt} (h : Alike m n)
    (hq : Quoted m env inputVault outputVault q less swapped)
    {less' swapped' : Nat} (hq' : Quoted n env inputVault outputVault q less' swapped')
    (hroom : n.vault.get inputVault + q.result.inputAmount < 2 ^ 64)
    (hs : settleSwap m env inputVault outputVault user toVault q = .ok (m', receipt)) :
    ∃ n', settleSwap n env inputVault outputVault user toVault q = .ok (n', receipt) ∧
      blank n' = blank m' := by
  obtain ⟨rfl, rfl, heffect, -⟩ := settleSwap_spec h.left.vault_lt hq hs
  obtain ⟨cached', -, hprice'⟩ := hq'.cached
  obtain ⟨-, -, hon'⟩ := priceSwap_sides hprice'
  obtain ⟨-, -, hreserve'⟩ := priceSwap_reserves hprice'
  obtain ⟨cached, -, hprice⟩ := hq.cached
  obtain ⟨-, -, hon⟩ := priceSwap_sides hprice
  simp only [settleSwap, bind_eq_ok, unwrap_eq_ok, tryFrom_eq_some, pure_eq_ok,
    Prod.mk.injEq] at hs
  obtain ⟨_, ⟨hp64, rfl⟩, _, ⟨hf64, rfl⟩, _, ⟨hc64, rfl⟩, s, hfees, event, hevent, vin, hvin, vout,
    hvout, obs, hobs, rfl, rfl⟩ := hs
  have hne := q.pricing.params.tradeDirection.input_ne_output
  -- the payment
  obtain rfl : vin = m.vault.get q.pricing.params.tradeDirection.input + q.result.inputAmount := by
    simpa [PerToken.get_set, hne] using heffect.vaultInput
  have hvin' := transferFromUserToPoolVault_of_room hvin hroom
  -- the payout
  have hpayout : q.outputTransferAmount ≤
      n.vault.get q.pricing.params.tradeDirection.output := by
    obtain ⟨-, hout, hleft, -⟩ := hq'.covers
    have hcov := h.right.net_add_owed q.pricing.params.tradeDirection.output
    rw [hreserve'] at hleft
    rw [hq'.pays]
    omega
  obtain ⟨vout', hvout'⟩ := transferFromPoolVaultToUser_of_le hpayout toVault
  -- the counters
  obtain ⟨henable, -⟩ := (PoolState.updateFees_eq_ok hon).mp hfees
  have henable' : n.poolState.enableCreatorFee = true ∨ q.result.creatorFee = 0 := by
    obtain ⟨t, rfl⟩ := h.eq_fill
    exact henable
  obtain ⟨s', hfees'⟩ := hq'.updateFees_fits h.right.rates h.right.vault_lt hroom henable'
  have hevent' : swapEvent n q q.pricing.params.tradeDirection.input
      q.pricing.params.tradeDirection.output = .ok event := by
    obtain ⟨t, rfl⟩ := h.eq_fill
    exact hevent
  have hobs' : n.observationState.update env.clock.blockTimestamp q.pricing.params.token0PriceX64
      q.pricing.params.token1PriceX64 = .ok obs := by
    obtain ⟨t, rfl⟩ := h.eq_fill
    exact hobs
  refine ⟨{ n with
    poolState := { s' with recentEpoch := env.clock.epoch }
    vault := (n.vault.set q.pricing.params.tradeDirection.input
      (n.vault.get q.pricing.params.tradeDirection.input + q.result.inputAmount)).set
        q.pricing.params.tradeDirection.output vout'
    observationState := obs }, ?_, ?_⟩
  · simp only [settleSwap, bind_eq_ok, unwrap_eq_ok, tryFrom_eq_some, pure_eq_ok, Prod.mk.injEq]
    exact ⟨_, ⟨hp64, rfl⟩, _, ⟨hf64, rfl⟩, _, ⟨hc64, rfl⟩, s', hfees', event, hevent', _, hvin', _,
      hvout', obs, hobs', rfl, rfl⟩
  · have hpool : blankPool s' = blankPool s := by
      rw [blankPool_updateFees hon' hfees', blankPool_updateFees hon hfees]
      exact congrArg Market.poolState h.same
    obtain ⟨t, rfl⟩ := h.eq_fill
    exact congrArg (fun pool => ({ m with
      poolState := pool, vault := ⟨0, 0⟩, observationState := obs } : Market)) hpool

/-! ## One call on both sides -/

section Matched

variable {user : Nat} {toVault : Bool} {receipt : SwapReceipt} {event : LpChangeEvent}

theorem swap_matched (h : Alike m n) (hq : Quoted m env inputVault outputVault q less swapped)
    {less' swapped' : Nat} (hq' : Quoted n env inputVault outputVault q less' swapped')
    (hroom : n.vault.get inputVault + q.result.inputAmount < 2 ^ 64)
    (hs : settleSwap m env inputVault outputVault user toVault q = .ok (m', receipt)) :
    ∃ n', settleSwap n env inputVault outputVault user toVault q = .ok (n', receipt) ∧
      Alike m' n' := by
  obtain ⟨n', hs', hsame⟩ := settleSwap_alike h hq hq' hroom hs
  obtain ⟨-, -, heffect, -⟩ := settleSwap_spec h.left.vault_lt hq hs
  obtain ⟨-, -, heffect', -⟩ := settleSwap_spec h.right.vault_lt hq' hs'
  exact ⟨n', hs', swap_alike h (swap_sound h.left hq heffect).1 (swap_sound h.right hq' heffect').1
    hsame heffect heffect'⟩

/-- A handler is a quote and its settlement; one quote serves both markets. -/
theorem handler_matched (quote : Market → Exec SwapQuote) (h : Alike m n)
    (hcongr : quote n = quote m)
    (hspec : ∀ m q, quote m = .ok q → ∃ less swapped,
      Quoted m env inputVault outputVault q less swapped)
    (hroom : ∀ q, quote n = .ok q → n.vault.get inputVault + q.result.inputAmount < 2 ^ 64)
    (hs : (quote m >>= settleSwap m env inputVault outputVault user toVault) =
      .ok (m', receipt)) :
    ∃ n', (quote n >>= settleSwap n env inputVault outputVault user toVault) = .ok (n', receipt) ∧
      Alike m' n' := by
  simp only [bind_eq_ok] at hs ⊢
  obtain ⟨q, hquote, hsettle⟩ := hs
  have hquote' := hcongr.trans hquote
  obtain ⟨less, swapped, hq⟩ := hspec m q hquote
  obtain ⟨less', swapped', hq'⟩ := hspec n q hquote'
  obtain ⟨n', hsettle', halike⟩ := swap_matched h hq hq' (hroom q hquote') hsettle
  exact ⟨n', ⟨q, hquote', hsettle'⟩, halike⟩

theorem swapBaseInput_matched {amountIn minimum : Nat} (h : Alike m n)
    (hroom : ∀ q, quoteBaseInput n env inputVault outputVault amountIn minimum = .ok q →
      n.vault.get inputVault + q.result.inputAmount < 2 ^ 64)
    (hs : Instructions.swapBaseInput m env inputVault outputVault amountIn minimum user toVault =
      .ok (m', receipt)) :
    ∃ n', Instructions.swapBaseInput n env inputVault outputVault amountIn minimum user toVault =
      .ok (n', receipt) ∧ Alike m' n' := by
  refine handler_matched (quoteBaseInput · env inputVault outputVault amountIn minimum) h
    (quoteBaseInput_congr h amountIn minimum) ?_ hroom hs
  intro m q hquote
  obtain ⟨less, swapped, hq, -⟩ := quoteBaseInput_spec hquote
  exact ⟨less, swapped, hq⟩

theorem swapBaseOutput_matched {maximum amountOut : Nat} (h : Alike m n)
    (hroom : ∀ q, quoteBaseOutput n env inputVault outputVault maximum amountOut = .ok q →
      n.vault.get inputVault + q.result.inputAmount < 2 ^ 64)
    (hs : Instructions.swapBaseOutput m env inputVault outputVault maximum amountOut user toVault =
      .ok (m', receipt)) :
    ∃ n', Instructions.swapBaseOutput n env inputVault outputVault maximum amountOut user toVault =
      .ok (n', receipt) ∧ Alike m' n' := by
  refine handler_matched (quoteBaseOutput · env inputVault outputVault maximum amountOut) h
    (quoteBaseOutput_congr h maximum amountOut) ?_ hroom hs
  intro m q hquote
  obtain ⟨less, swapped, hq, -⟩ := quoteBaseOutput_spec hquote
  exact ⟨less, swapped, hq⟩

theorem deposit_matched {k max0 max1 : Nat} {ownerAmount : PerToken Nat} (h : Alike m n)
    (hroom : ∀ results, lpAmounts n n.nets k .ceiling = .ok results →
      n.vault.token0 + results.token0Amount < 2 ^ 64 ∧
        n.vault.token1 + results.token1Amount < 2 ^ 64)
    (hd : deposit m env k max0 max1 ownerAmount = .ok (m', event)) :
    ∃ n', deposit n env k max0 max1 ownerAmount = .ok (n', event) ∧ blank n' = blank m' ∧
      ∀ side, n'.net side = m'.net side := by
  have hnets := h.nets
  have hnet := h.net
  have heffect := deposit_effect h.left hd
  simp only [deposit, bind_eq_ok, require_eq_ok, unwrap_eq_ok, tryFrom_eq_some, checkedAdd_eq_some,
    tokenMintTo_eq_ok, pure_eq_ok, Prod.mk.injEq, h.left.netAmounts, Except.ok.injEq] at hd
  obtain ⟨_, hk, _, hstatus, _, rfl, results, hres, _, ⟨h0, rfl⟩, ⟨total0, fee0⟩, hg0, _, ⟨h1, rfl⟩,
    ⟨total1, fee1⟩, hg1, _, hmax, vault0, hv0, vault1, hv1, _, ⟨hs64, rfl⟩, _, ⟨hl64, rfl⟩, rfl,
    rfl⟩ := hd
  obtain ⟨-, rfl⟩ := deposit_credit (h.left.vault_lt .token0) hg0 hv0
  obtain ⟨-, rfl⟩ := deposit_credit (h.left.vault_lt .token1) hg1 hv1
  have hright := h.right.netAmounts
  obtain ⟨t, rfl⟩ := h.eq_fill
  rw [hnets] at hroom hright
  obtain ⟨hroom0, hroom1⟩ := hroom results hres
  have hv0' := transferFromUserToPoolVault_of_room hv0 hroom0
  have hv1' := transferFromUserToPoolVault_of_room hv1 hroom1
  refine ⟨{ fill m t with
    poolState := { (fill m t).poolState with
      lpSupply := m.poolState.lpSupply + k, recentEpoch := env.clock.epoch }
    vault := ⟨t.vault.token0 + results.token0Amount, t.vault.token1 + results.token1Amount⟩
    lpMintSupply := m.lpMintSupply + k }, ?_, rfl, ?_⟩
  · simp only [deposit, bind_eq_ok, require_eq_ok, unwrap_eq_ok, tryFrom_eq_some,
      checkedAdd_eq_some, tokenMintTo_eq_ok, pure_eq_ok, Prod.mk.injEq, hright, Except.ok.injEq]
    exact ⟨(), hk, (), hstatus, _, rfl, results, hres, _, ⟨h0, rfl⟩, _, hg0, _, ⟨h1, rfl⟩, _, hg1,
      (), hmax, _, hv0', _, hv1', _, ⟨hs64, rfl⟩, _, ⟨hl64, rfl⟩, rfl, rfl⟩
  · intro side
    cases side with
    | token0 => exact h.net_raised (show _ = _ + results.token0Amount from rfl) rfl rfl rfl
    | token1 => exact h.net_raised (show _ = _ + results.token1Amount from rfl) rfl rfl rfl

theorem withdraw_matched {k min0 min1 held : Nat} {payoutToVault : PerToken Bool} (h : Alike m n)
    (hw : withdraw m env k min0 min1 held payoutToVault = .ok (m', event)) :
    ∃ n', withdraw n env k min0 min1 held payoutToVault = .ok (n', event) ∧ blank n' = blank m' ∧
      ∀ side, n'.net side = m'.net side := by
  have hnets := h.nets
  simp only [withdraw, bind_eq_ok, require_eq_ok, unwrap_eq_ok, tryFrom_eq_some, checkedSub_eq_some,
    tokenBurn_eq_ok, pure_eq_ok, Prod.mk.injEq, h.left.netAmounts, Except.ok.injEq] at hw
  obtain ⟨_, hk, _, hheld, _, hstatus, _, rfl, results, hres, _, ⟨h0, rfl⟩, ⟨net0, fee0⟩, hnt0, _,
    ⟨h1, rfl⟩, ⟨net1, fee1⟩, hnt1, _, hmin, _, ⟨hsup, rfl⟩, _, ⟨hb, hburn, rfl⟩, vault0, hv0,
    vault1, hv1, rfl, rfl⟩ := hw
  have hle0 : min m.nets.token0 results.token0Amount ≤ m.net .token0 := Nat.min_le_left _ _
  have hle1 : min m.nets.token1 results.token1Amount ≤ m.net .token1 := Nat.min_le_left _ _
  have hout0 : min m.nets.token0 results.token0Amount ≤ n.vault.token0 := by
    have hcov := h.right.net_add_owed .token0
    have hnet := h.net .token0
    simp only [PerToken.get] at hcov
    omega
  have hout1 : min m.nets.token1 results.token1Amount ≤ n.vault.token1 := by
    have hcov := h.right.net_add_owed .token1
    have hnet := h.net .token1
    simp only [PerToken.get] at hcov
    omega
  obtain ⟨vault0', hv0'⟩ := transferFromPoolVaultToUser_of_le hout0 payoutToVault.token0
  obtain ⟨vault1', hv1'⟩ := transferFromPoolVaultToUser_of_le hout1 payoutToVault.token1
  have hright := h.right.netAmounts
  obtain ⟨t, rfl⟩ := h.eq_fill
  rw [hnets] at hright
  refine ⟨{ fill m t with
    poolState := { (fill m t).poolState with
      lpSupply := m.poolState.lpSupply - k, recentEpoch := env.clock.epoch }
    vault := ⟨vault0', vault1'⟩
    lpMintSupply := m.lpMintSupply - k }, ?_, rfl, ?_⟩
  · simp only [withdraw, bind_eq_ok, require_eq_ok, unwrap_eq_ok, tryFrom_eq_some,
      checkedSub_eq_some, tokenBurn_eq_ok, pure_eq_ok, Prod.mk.injEq, hright, Except.ok.injEq]
    exact ⟨(), hk, (), hheld, (), hstatus, _, rfl, results, hres, _, ⟨h0, rfl⟩, _, hnt0, _,
      ⟨h1, rfl⟩, _, hnt1, (), hmin, _, ⟨hsup, rfl⟩, _, ⟨hb, hburn, rfl⟩, _, hv0', _, hv1', rfl, rfl⟩
  · intro side
    have hd0 := (transferFromPoolVaultToUser_eq_ok.mp hv0).2
    have hd1 := (transferFromPoolVaultToUser_eq_ok.mp hv1).2
    have hd0' := (transferFromPoolVaultToUser_eq_ok.mp hv0').2
    have hd1' := (transferFromPoolVaultToUser_eq_ok.mp hv1').2
    cases side with
    | token0 =>
      refine h.net_lowered ?_ hd0 rfl hd0' rfl
      split
      · exact Nat.zero_le _
      · exact hle0
    | token1 =>
      refine h.net_lowered ?_ hd1 rfl hd1' rfl
      split
      · exact Nat.zero_le _
      · exact hle1

end Matched

theorem donate_matched {side : TokenSide} {amount user : Nat} (h : Alike m n)
    (hroom : ∀ credited, arriving (env.mint side) env.clock.epoch user amount = .ok credited →
      n.vault.get side + credited < 2 ^ 64)
    (hd : m.donate env side amount user = .ok m') :
    ∃ n', n.donate env side amount user = .ok n' ∧ blank n' = blank m' ∧
      ∀ side, n'.net side = m'.net side := by
  simp only [Market.donate, bind_eq_ok, pure_eq_ok] at hd
  obtain ⟨_, hv, rfl⟩ := hd
  obtain ⟨credited, hcredit, -, rfl⟩ := transferFromUserToPoolVault_spec (h.left.vault_lt side) hv
  have hfits : n.vault.get side + credited < 2 ^ 64 := by
    rcases hcredit with ⟨-, rfl⟩ | ⟨-, hc⟩
    · exact h.right.vault_lt side
    · exact hroom credited hc
  have hv' := transferFromUserToPoolVault_of_room hv hfits
  refine ⟨{ n with vault := n.vault.set side (n.vault.get side + credited) }, ?_, h.same, ?_⟩
  · simp only [Market.donate, bind_eq_ok, pure_eq_ok]
    exact ⟨_, hv', rfl⟩
  · intro side'
    by_cases hside : side' = side
    · subst hside
      exact h.net_raised (PerToken.get_set_self _ _ _) rfl (PerToken.get_set_self _ _ _) rfl
    · have hnet := h.net side'
      simp only [Market.net, Market.owed, PerToken.get_set, hside, if_false] at hnet ⊢
      exact hnet

/-- No vault overflows: what a call brings in fits beside what the vault holds. -/
def RoomFor (m : Market) (call : Call) : Prop :=
  match call.op with
  | .swapBaseInput inputVault outputVault amountIn minimum _ _ =>
    ∀ q, quoteBaseInput m call.env inputVault outputVault amountIn minimum = .ok q →
      m.vault.get inputVault + q.result.inputAmount < 2 ^ 64
  | .swapBaseOutput inputVault outputVault maximum amountOut _ _ =>
    ∀ q, quoteBaseOutput m call.env inputVault outputVault maximum amountOut = .ok q →
      m.vault.get inputVault + q.result.inputAmount < 2 ^ 64
  | .deposit k _ _ _ =>
    ∀ results, lpAmounts m m.nets k .ceiling = .ok results →
      m.vault.token0 + results.token0Amount < 2 ^ 64 ∧
        m.vault.token1 + results.token1Amount < 2 ^ 64
  | .donate side amount user =>
    ∀ credited, arriving (call.env.mint side) call.env.clock.epoch user amount = .ok credited →
      m.vault.get side + credited < 2 ^ 64
  | _ => True

/-- Collected fees leave the pool. -/
def PaidOut : Op → Prop
  | .collectProtocolFee _ _ toVault => toVault = ⟨false, false⟩
  | .collectFundFee _ _ toVault => toVault = ⟨false, false⟩
  | _ => True

/-- **A call that succeeds in one market succeeds alike in the other.** -/
theorem step_matched {call : Call} {e : Event} (h : Alike m n)
    (hop : isCollect call.op = false) (hroom : RoomFor n call)
    (hs : m.step call = .ok (m', e)) :
    ∃ n', n.step call = .ok (n', e) ∧ Alike m' n' := by
  have hmatched : ∃ n', n.step call = .ok (n', e) ∧ blank n' = blank m' ∧
      ∀ side, n'.net side = m'.net side := by
    obtain ⟨env, op⟩ := call
    cases op with
    | updateAmmConfig owner param value remaining =>
      have hnet := h.net
      obtain ⟨t, rfl⟩ := h.eq_fill
      simp only [Market.step, Market.quiet, bind_eq_ok, pure_eq_ok, Prod.mk.injEq] at hs ⊢
      obtain ⟨_, ⟨c, hc, rfl⟩, rfl, rfl⟩ := hs
      exact ⟨_, ⟨_, ⟨c, hc, rfl⟩, rfl, rfl⟩, rfl, hnet⟩
    | updatePoolStatus authority status =>
      have hnet := h.net
      obtain ⟨t, rfl⟩ := h.eq_fill
      simp only [Market.step, Market.quiet, Instructions.updatePoolStatus, bind_eq_ok, pure_eq_ok,
        Prod.mk.injEq] at hs ⊢
      obtain ⟨_, ⟨_, hauth, _, hstatus, rfl⟩, rfl, rfl⟩ := hs
      exact ⟨_, ⟨_, ⟨_, hauth, _, hstatus, rfl⟩, rfl, rfl⟩, rfl, hnet⟩
    | updatePoolOracle keeper bid ask exponent fee =>
      have hnet := h.net
      obtain ⟨t, rfl⟩ := h.eq_fill
      simp only [Market.step, Instructions.updatePoolOracle, bind_eq_ok, pure_eq_ok,
        Prod.mk.injEq] at hs ⊢
      obtain ⟨_, ⟨_, hkeeper, _, hbid, _, hask, _, hfee, rfl⟩, rfl, rfl⟩ := hs
      exact ⟨_, ⟨_, ⟨_, hkeeper, _, hbid, _, hask, _, hfee, rfl⟩, rfl, rfl⟩, rfl, hnet⟩
    | setOracleKeeper authority keeper =>
      have hnet := h.net
      obtain ⟨t, rfl⟩ := h.eq_fill
      simp only [Market.step, Market.quiet, Instructions.setOracleKeeper, bind_eq_ok, pure_eq_ok,
        Prod.mk.injEq] at hs ⊢
      obtain ⟨_, ⟨_, hauth, rfl⟩, rfl, rfl⟩ := hs
      exact ⟨_, ⟨_, ⟨_, hauth, rfl⟩, rfl, rfl⟩, rfl, hnet⟩
    | collectProtocolFee owner requested toVault => cases hop
    | collectFundFee owner requested toVault => cases hop
    | collectCreatorFee creator => cases hop
    | deposit k max0 max1 ownerAmount =>
      simp only [Market.step, bind_eq_ok, pure_eq_ok, Prod.mk.injEq] at hs ⊢
      obtain ⟨⟨_, event⟩, hd, rfl, rfl⟩ := hs
      obtain ⟨n', hn, hsame, hnet⟩ := deposit_matched h hroom hd
      exact ⟨n', ⟨(n', event), hn, rfl, rfl⟩, hsame, hnet⟩
    | withdraw k min0 min1 held toVault =>
      simp only [Market.step, bind_eq_ok, pure_eq_ok, Prod.mk.injEq] at hs ⊢
      obtain ⟨⟨_, event⟩, hw, rfl, rfl⟩ := hs
      obtain ⟨n', hn, hsame, hnet⟩ := withdraw_matched h hw
      exact ⟨n', ⟨(n', event), hn, rfl, rfl⟩, hsame, hnet⟩
    | swapBaseInput inputVault outputVault amountIn minimum user toVault =>
      simp only [Market.step, bind_eq_ok, pure_eq_ok, Prod.mk.injEq] at hs ⊢
      obtain ⟨⟨_, receipt⟩, hswap, rfl, rfl⟩ := hs
      obtain ⟨n', hn, halike⟩ := swapBaseInput_matched h hroom hswap
      exact ⟨n', ⟨(n', receipt), hn, rfl, rfl⟩, halike.same, halike.net⟩
    | swapBaseOutput inputVault outputVault maximum amountOut user toVault =>
      simp only [Market.step, bind_eq_ok, pure_eq_ok, Prod.mk.injEq] at hs ⊢
      obtain ⟨⟨_, receipt⟩, hswap, rfl, rfl⟩ := hs
      obtain ⟨n', hn, halike⟩ := swapBaseOutput_matched h hroom hswap
      exact ⟨n', ⟨(n', receipt), hn, rfl, rfl⟩, halike.same, halike.net⟩
    | donate side amount user =>
      simp only [Market.step, Market.quiet, bind_eq_ok, pure_eq_ok, Prod.mk.injEq] at hs ⊢
      obtain ⟨_, hd, rfl, rfl⟩ := hs
      obtain ⟨n', hn, hsame, hnet⟩ := donate_matched h hroom hd
      exact ⟨n', ⟨n', hn, rfl, rfl⟩, hsame, hnet⟩
    | burnLp amount held =>
      have hnet := h.net
      obtain ⟨t, rfl⟩ := h.eq_fill
      simp only [Market.step, Market.quiet, Market.burnLp, bind_eq_ok, pure_eq_ok,
        Prod.mk.injEq] at hs ⊢
      obtain ⟨_, ⟨_, hburn, rfl⟩, rfl, rfl⟩ := hs
      exact ⟨_, ⟨_, ⟨_, hburn, rfl⟩, rfl, rfl⟩, rfl, hnet⟩
  obtain ⟨n', hn, hsame, hnet⟩ := hmatched
  exact ⟨n', hn, step_sound h.left hs, step_sound h.right hn, hsame, hnet⟩

/-! ## Collections -/

/-- Vault and counter fall together. -/
theorem collect_net {amount : PerToken Nat} (hm : Sound m)
    (h : CollectEffect m m' amount ⟨false, false⟩) (side : TokenSide) :
    m'.net side = m.net side := by
  have hcov := hm.net_add_owed side
  have hvault := h.vault side
  have howed := h.owed side
  rw [if_neg (by cases side <;> decide)] at hvault
  unfold Market.net at hcov ⊢
  omega

/-- **A collection on one side keeps two markets alike.** -/
theorem collect_alike {call : Call} {e : Event} (h : Alike m n) (hop : isCollect call.op = true)
    (hpaid : PaidOut call.op) (hs : m.step call = .ok (m', e)) : Alike m' n := by
  have hcollected : blank m' = blank m ∧ ∀ side, m'.net side = m.net side := by
    obtain ⟨env, op⟩ := call
    cases op with
    | collectProtocolFee owner requested toVault =>
      cases hpaid
      simp only [Market.step, Market.quiet, bind_eq_ok, pure_eq_ok, Prod.mk.injEq] at hs
      obtain ⟨_, hc, rfl, -⟩ := hs
      have hnet := collect_net h.left (collectProtocolFee_effect hc)
      obtain ⟨-, vault, -, rfl⟩ := collectFee_eq_ok.mp hc
      exact ⟨rfl, hnet⟩
    | collectFundFee owner requested toVault =>
      cases hpaid
      simp only [Market.step, Market.quiet, bind_eq_ok, pure_eq_ok, Prod.mk.injEq] at hs
      obtain ⟨_, hc, rfl, -⟩ := hs
      have hnet := collect_net h.left (collectFundFee_effect hc)
      obtain ⟨-, vault, -, rfl⟩ := collectFee_eq_ok.mp hc
      exact ⟨rfl, hnet⟩
    | collectCreatorFee creator =>
      simp only [Market.step, Market.quiet, bind_eq_ok, pure_eq_ok, Prod.mk.injEq] at hs
      obtain ⟨_, hc, rfl, -⟩ := hs
      have hnet := collect_net h.left (collectCreatorFee_effect hc)
      obtain ⟨-, -, vault, -, rfl⟩ := collectCreatorFee_eq_ok.mp hc
      exact ⟨rfl, hnet⟩
    | _ => cases hop
  obtain ⟨hsame, hnet⟩ := hcollected
  exact ⟨step_sound h.left hs, h.right, h.same.trans hsame.symm,
    fun side => (h.net side).trans (hnet side).symm⟩

/-- What traders and LPs see of a market. -/
def view (m : Market) : PerToken Nat × Nat × ObservationState :=
  (m.nets, m.poolState.lpSupply, m.observationState)

theorem Alike.view_eq (h : Alike m n) : view m = view n := by
  have hsupply := congrArg (fun b : Market => b.poolState.lpSupply) h.same
  have hobservation := congrArg Market.observationState h.same
  change n.poolState.lpSupply = m.poolState.lpSupply at hsupply
  change n.observationState = m.observationState at hobservation
  unfold view
  rw [h.nets, hsupply, hobservation]

/-- A call that finds room in the vaults and, if it collects, pays out. -/
def Unobstructed (m : Market) (call : Call) : Prop := RoomFor m call ∧ PaidOut call.op

/-- **Collections simulate nothing.** -/
theorem collect_simulation :
    Simulation Market.step (fun call => isCollect call.op) view Unobstructed Alike where
  symm _ _ h := h.symm
  hidden _ _ _ _ _ hop hclear h hs := collect_alike h hop hclear.2 hs
  matched _ _ _ _ _ hop _ hclear h hs := step_matched h hop hclear.1 hs
  view _ _ h := h.view_eq

/-- **Fee collection is invisible.** Two runs from one reachable pool that make the same
calls but for collections return the same, call by call, and leave the same net reserves,
LP supply and observations after each of them. -/
theorem collections_invisible (m : Market) (hm : m.Reachable) (left right : List Call)
    (hsame : left.filter (fun call => !isCollect call.op) =
      right.filter (fun call => !isCollect call.op))
    (hleft : Along Market.step Unobstructed m left)
    (hright : Along Market.step Unobstructed m right) :
    transcript Market.step (fun call => isCollect call.op) view m left =
      transcript Market.step (fun call => isCollect call.op) view m right := by
  have hsound := reachable_sound hm
  exact collect_simulation.transcript_eq left right hsame ⟨hsound, hsound, rfl, fun _ => rfl⟩ hleft
    hright

/-- Two swaps of the example pool, with collections between and after them or with none. -/
theorem collections_invisible_examplePool :
    let push := examplePush 99900000 100100000 0
    let sold := exampleSwap 1100 .token0 .token1 50000000
    let bought := exampleSwap 1130 .token1 .token0 20000000
    let collect : Call :=
      ⟨exampleEnv 1120, .collectProtocolFee adminId ⟨10000, 500⟩ ⟨false, false⟩⟩
    let collectAll : Call := ⟨exampleEnv 1140, .collectCreatorFee 7⟩
    transcript Market.step (fun call => isCollect call.op) view examplePool
        [push, sold, collect, bought, collectAll] =
      transcript Market.step (fun call => isCollect call.op) view examplePool
        [push, sold, bought] := by
  intro push sold bought collect collectAll
  refine collections_invisible examplePool examplePool_reachable _ _ rfl ?_ ?_
  · exact ⟨⟨trivial, trivial⟩, ⟨forall_of_all (by decide +kernel), trivial⟩, ⟨trivial, rfl⟩,
      ⟨forall_of_all (by decide +kernel), trivial⟩, ⟨trivial, trivial⟩, trivial⟩
  · exact ⟨⟨trivial, trivial⟩, ⟨forall_of_all (by decide +kernel), trivial⟩,
      ⟨forall_of_all (by decide +kernel), trivial⟩, trivial⟩

end NomadAmm.Soundness.FeeCollection

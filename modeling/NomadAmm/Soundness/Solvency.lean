import NomadAmm.Lib.Shares
import NomadAmm.Soundness.Ledger

/-! Every reachable pool can pay what it owes. Each effect keeps the books sound, a new
pool has sound books, and so has every pool that calls can lead to. -/

namespace NomadAmm.Soundness.Solvency

open Lib.Transition Exec Instructions
open Soundness.Settlement Soundness.Ledger

variable {m m' : Market} {env : Env} {inputVault outputVault : TokenSide} {q : SwapQuote}
  {less swapped : Nat} {toVault : Bool}

/-- A swap seen from the reserves: `less` came in, `swapped` went out, at no better than
the oracle spot `n / d`. -/
structure Trade (m m' : Market) (direction : TradeDirection) (less swapped n d : Nat) : Prop where
  input : m.net direction.input + less ≤ m'.net direction.input
  output : m.net direction.output ≤ m'.net direction.output + swapped
  left : swapped < m.net direction.output
  spot : swapped * d ≤ less * n

/-- The prices of a sound pool are always found. -/
theorem tokenPriceX32_of_sound (hm : Sound m) :
    m.poolState.tokenPriceX32 m.vault.token0 m.vault.token1 =
      .ok ⟨m.net .token1 * q32 / m.net .token0, m.net .token0 * q32 / m.net .token1⟩ := by
  have h0 := hm.net_pos .token0
  have h1 := hm.net_pos .token1
  rw [PoolState.tokenPriceX32_eq_ok hm.netAmounts]
  exact ⟨Nat.ne_of_gt h0, Nat.ne_of_gt h1, rfl⟩

/-- **The fees of a swap are paid out of the swap.** -/
theorem swap_sound (hm : Sound m) (hq : Quoted m env inputVault outputVault q less swapped)
    (hs : SwapEffect m m' q.pricing.params.tradeDirection q.pricing.params.isCreatorFeeOnInput
      toVault q.result) :
    Sound m' ∧ Trade m m' q.pricing.params.tradeDirection less swapped q.pricing.spotNum
      q.pricing.spotDen := by
  obtain ⟨cached, -, hprice⟩ := hq.cached
  obtain ⟨-, -, hreserve⟩ := priceSwap_reserves hprice
  obtain ⟨hin, hout, hleft, hspot⟩ := hq.covers
  have hshares := hq.shares hm.rates
  rw [hreserve] at hleft
  set direction := q.pricing.params.tradeDirection
  have hcovIn := hm.net_add_owed direction.input
  have hcovOut := hm.net_add_owed direction.output
  have hltOut := hm.vault_lt direction.output
  obtain ⟨hvin, hlt, hvout, hoin, hoout, hconfig, hsupply, hmint, -⟩ := hs
  have hpayout : (if toVault then 0 else q.result.outputAmount) ≤ q.result.outputAmount := by
    split <;> omega
  have hnetIn : m'.owed direction.input + (m.net direction.input + less) ≤
      m'.vault.get direction.input := by omega
  have hnetOut : m'.owed direction.output + m.net direction.output ≤
      m'.vault.get direction.output + swapped := by omega
  have hposIn := hm.net_pos direction.input
  refine ⟨⟨by rw [hconfig]; exact hm.rates, ?_, ?_, ?_⟩, ?_⟩
  · intro side
    rcases direction.eq_input_or_output side with rfl | rfl
    · omega
    · omega
  · intro side
    rcases direction.eq_input_or_output side with rfl | rfl
    · exact hlt
    · omega
  · rw [hmint, hsupply]
    exact hm.supply
  · refine ⟨?_, ?_, hleft, hspot⟩
    · simp only [Market.net] at hnetIn ⊢
      omega
    · simp only [Market.net] at hnetOut ⊢
      omega

/-- A swap only adds to what is owed. -/
theorem swap_owed {direction : TradeDirection} {onInput : Bool} {R : SwapResult}
    (h : SwapEffect m m' direction onInput toVault R) (side : TokenSide) :
    m.owed side ≤ m'.owed side := by
  rcases direction.eq_input_or_output side with rfl | rfl
  · have howed := h.owedInput
    omega
  · have howed := h.owedOutput
    omega

/-- Redeeming `k` LP tokens that were minted leaves the locked ones behind. -/
theorem withdraw_keeps (hm : Sound m) {k : Nat} (h : WithdrawEffect m m' k) (side : TokenSide) :
    m.owed side < m'.vault.get side := by
  have hsup := hm.supply
  have hmint := h.mint
  have hk : k < m.poolState.lpSupply := by
    unfold lockLpAmount at hsup
    omega
  have hlt := Lib.Shares.Book.share_lt (hm.net_pos side) hk
  have hnet := hm.net_add_owed side
  have hvault := h.vault side
  generalize k * m.net side / m.poolState.lpSupply = share at hlt hvault
  omega

/-- **Every effect keeps the books sound.** -/
theorem effect_sound {op : Op} (hm : Sound m) (h : Effect m op m') : Sound m' := by
  cases h with
  | updateAmmConfig h => exact ⟨hm.rates.update h, hm.covered, hm.vault_lt, hm.supply⟩
  | updatePoolStatus => exact ⟨hm.rates, hm.covered, hm.vault_lt, hm.supply⟩
  | updatePoolOracle _ _ _ => exact ⟨hm.rates, hm.covered, hm.vault_lt, hm.supply⟩
  | setOracleKeeper => exact ⟨hm.rates, hm.covered, hm.vault_lt, hm.supply⟩
  | collect amount toVault _ h =>
    refine ⟨by rw [h.config]; exact hm.rates, ?_, ?_, ?_⟩
    · intro side
      have hcov := hm.covered side
      have hvault := h.vault side
      have howed := h.owed side
      split at hvault <;> omega
    · intro side
      have hlt := hm.vault_lt side
      have hvault := h.vault side
      omega
    · rw [h.mint, h.supply]
      exact hm.supply
  | deposit h =>
    refine ⟨by rw [h.config]; exact hm.rates, ?_, h.vault_lt, ?_⟩
    · intro side
      rw [h.owed, h.vault]
      exact (hm.covered side).trans_le (Nat.le_add_right _ _)
    · have hsup := hm.supply
      rw [h.mint, h.supply]
      omega
  | withdraw h =>
    refine ⟨by rw [h.config]; exact hm.rates, ?_, ?_, ?_⟩
    · intro side
      rw [h.owed]
      exact withdraw_keeps hm h side
    · intro side
      exact (h.vault_le side).trans_lt (hm.vault_lt side)
    · have hsup := hm.supply
      have hs := h.supply
      have hmint := h.mint
      omega
  | swapBaseInput hq hs => exact (swap_sound hm hq hs).1
  | swapBaseOutput hq hs => exact (swap_sound hm hq hs).1
  | @donate given _ _ credited h64 =>
    refine ⟨hm.rates, ?_, ?_, hm.supply⟩
    · intro side
      have hcov := hm.covered side
      simp only [Market.owed, PerToken.get_set] at hcov ⊢
      split
      · next hside => subst hside; omega
      · exact hcov
    · intro side
      simp only [PerToken.get_set]
      split
      · exact h64
      · exact hm.vault_lt side
  | burnLp _ =>
    refine ⟨hm.rates, hm.covered, hm.vault_lt, ?_⟩
    have hsup := hm.supply
    dsimp only
    omega

theorem step_sound {call : Call} {e : Event} (hm : Sound m) (h : m.step call = .ok (m', e)) :
    Sound m' :=
  effect_sound hm (step_effect hm h)

/-- What pool creation establishes. -/
structure Opened (m : Market) (c : AmmConfig) : Prop where
  config : m.ammConfig = c
  owed : ∀ side, m.owed side = 0
  vault : ∀ side, 1 ≤ m.vault.get side ∧ m.vault.get side < 2 ^ 64
  supply : m.poolState.lpSupply = m.lpMintSupply + lockLpAmount
  unquoted : m.poolState.effectiveBidMantissa = 0 ∧ m.poolState.effectiveAskMantissa = 0 ∧
    m.poolState.dynamicFeeRate = 0

theorem initializePool_spec {c : AmmConfig} {creator : Pubkey} {feeOn : CreatorFeeOn}
    {enable : Bool} {args : InitializeArgs} {payer : Funds}
    (h : initializePool c env creator feeOn enable args payer = .ok m) : Opened m c := by
  simp only [initializePool, CurveCalculator.validateSupply, bind_eq_ok, require_eq_ok,
    unwrap_eq_ok, okOr_eq_ok, Lib.Checked.checkedMul_eq_some, Lib.Checked.tryFrom_eq_some,
    Lib.Checked.checkedSub_eq_some, tokenMintTo_eq_ok, pure_eq_ok] at h
  obtain ⟨_, _, openTime, _, vault0, hv0, vault1, hv1, _, ⟨_, h0, h1⟩, _, ⟨_, rfl⟩, _, ⟨_, rfl⟩, _,
    ⟨hlock, rfl⟩, _, ⟨_, rfl⟩, _, _, rfl⟩ := h
  obtain ⟨credit0, -, hlt0, rfl⟩ := transferFromUserToPoolVault_spec (by norm_num) hv0
  obtain ⟨credit1, -, hlt1, rfl⟩ := transferFromUserToPoolVault_spec (by norm_num) hv1
  refine ⟨rfl, fun side => by cases side <;> rfl, ?_, ?_, rfl, rfl, rfl⟩
  · intro side
    cases side with
    | token0 => exact ⟨Nat.one_le_iff_ne_zero.mpr h0, hlt0⟩
    | token1 => exact ⟨Nat.one_le_iff_ne_zero.mpr h1, hlt1⟩
  · simp only [initialPoolState]
    omega

/-- Either instruction creates a pool by the same body. -/
theorem initial_opened (h : Market.Initial m) : ∃ c : AmmConfig, c.Reachable ∧ Opened m c := by
  cases h with
  | permissionless hc h => exact ⟨_, hc, initializePool_spec h⟩
  | withPermission hc h =>
    simp only [initializeWithPermission, bind_eq_ok, require_eq_ok] at h
    obtain ⟨_, _, h⟩ := h
    exact ⟨_, hc, initializePool_spec h⟩

theorem initial_sound (h : Market.Initial m) : Sound m := by
  obtain ⟨c, hc, hopen⟩ := initial_opened h
  refine ⟨?_, ?_, fun side => (hopen.vault side).2, hopen.supply.ge⟩
  · rw [hopen.config]
    exact hc.ratesBounded
  · intro side
    rw [hopen.owed]
    exact (hopen.vault side).1

theorem replay_sound (hm : Sound m) (calls : List Call) : Sound (replay Market.step m calls) :=
  replay_invariant (fun _ _ _ _ hs h => step_sound hs h) calls hm

/-- **The books of a reachable pool are sound.** -/
theorem reachable_sound (h : m.Reachable) : Sound m := by
  obtain ⟨m₀, calls, hinit, rfl⟩ := h
  exact replay_sound (initial_sound hinit) calls

/-! ## Fee solvency -/

/-- Only a collection lowers what is owed. -/
theorem effect_owed {op : Op} (h : Effect m op m') (hop : isCollect op = false)
    (side : TokenSide) : m.owed side ≤ m'.owed side := by
  cases h with
  | updateAmmConfig _ => exact le_rfl
  | updatePoolStatus => exact le_rfl
  | updatePoolOracle _ _ _ => exact le_rfl
  | setOracleKeeper => exact le_rfl
  | collect amount toVault hcollect _ => rw [hop] at hcollect; cases hcollect
  | deposit h => rw [h.owed]
  | withdraw h => rw [h.owed]
  | swapBaseInput hq hs => exact swap_owed hs side
  | swapBaseOutput hq hs => exact swap_owed hs side
  | donate _ _ => exact le_rfl
  | burnLp _ => exact le_rfl

theorem payFees_of_le {vault amount : PerToken Nat}
    (h : ∀ side, amount.get side ≤ vault.get side) (toVault : PerToken Bool) :
    ∃ vault', payFees vault amount toVault = .ok vault' := by
  obtain ⟨vault0, h0⟩ := transferFromPoolVaultToUser_of_le (h .token0) toVault.token0
  obtain ⟨vault1, h1⟩ := transferFromPoolVaultToUser_of_le (h .token1) toVault.token1
  simp only [payFees, bind_eq_ok, pure_eq_ok]
  exact ⟨_, vault0, h0, vault1, h1, rfl⟩

/-- A collection of no more than a counter can be paid. -/
theorem collectFee_payable (hm : Sound m) (env : Env) (requested : PerToken Nat)
    {fees : PerToken Nat} (hfees : ∀ side, fees.get side ≤ m.owed side) {feeOwner owner : Pubkey}
    (howner : owner = feeOwner ∨ owner = adminId)
    (write : PoolState → PerToken Nat → PoolState) (toVault : PerToken Bool) :
    ∃ m', collectFee m env feeOwner owner fees requested write toVault = .ok m' := by
  have hle : ∀ side, (collectable fees requested).get side ≤ m.vault.get side := fun side =>
    ((collectable_le fees requested side).trans (hfees side)).trans (hm.covered side).le
  obtain ⟨vault, hpay⟩ := payFees_of_le hle toVault
  exact ⟨_, collectFee_eq_ok.mpr ⟨howner, vault, hpay, rfl⟩⟩

theorem protocolFees_le (m : Market) (side : TokenSide) :
    m.poolState.protocolFees.get side ≤ m.owed side := by
  simp only [Market.owed, PoolState.owed]
  omega

theorem fundFees_le (m : Market) (side : TokenSide) :
    m.poolState.fundFees.get side ≤ m.owed side := by
  simp only [Market.owed, PoolState.owed]
  omega

theorem creatorFees_le (m : Market) (side : TokenSide) :
    m.poolState.creatorFees.get side ≤ m.owed side := by
  simp only [Market.owed, PoolState.owed]
  omega

/-- **Fee solvency.** In a reachable pool the vaults cover the fees, so net amounts are
always computed, no call that is not a collection eats into what is owed, and every
collection is paid in full. -/
theorem fees_solvent (m : Market) (h : m.Reachable) :
    (∀ side, m.owed side < 2 ^ 64 ∧ m.owed side ≤ m.vault.get side) ∧
    m.poolState.vaultAmountWithoutFee m.vault.token0 m.vault.token1 = .ok m.nets ∧
    (∀ call m' e, m.step call = .ok (m', e) → isCollect call.op = false →
      ∀ side, m.owed side ≤ m'.owed side ∧ m'.owed side ≤ m'.vault.get side) ∧
    (∀ env owner requested toVault, owner = m.ammConfig.protocolOwner ∨ owner = adminId →
      ∃ m', collectProtocolFee m env owner requested toVault = .ok m' ∧
        CollectEffect m m' (collectable m.poolState.protocolFees requested) toVault) ∧
    (∀ env owner requested toVault, owner = m.ammConfig.fundOwner ∨ owner = adminId →
      ∃ m', collectFundFee m env owner requested toVault = .ok m' ∧
        CollectEffect m m' (collectable m.poolState.fundFees requested) toVault) ∧
    (∀ env, m.poolState.creatorFees.token0 ≠ 0 ∨ m.poolState.creatorFees.token1 ≠ 0 →
      ∃ m', collectCreatorFee m env m.poolState.poolCreator = .ok m' ∧
        CollectEffect m m' m.poolState.creatorFees ⟨false, false⟩) := by
  have hm := reachable_sound h
  refine ⟨fun side => ⟨(hm.covered side).trans (hm.vault_lt side), (hm.covered side).le⟩,
    hm.netAmounts, ?_, ?_, ?_, ?_⟩
  · intro call m' e hstep hop side
    exact ⟨effect_owed (step_effect hm hstep) hop side, ((step_sound hm hstep).covered side).le⟩
  · intro env owner requested toVault howner
    obtain ⟨m', hc⟩ := collectFee_payable hm env requested (protocolFees_le m)
       howner (fun s fees => { s with protocolFees := fees }) toVault
    exact ⟨m', hc, collectProtocolFee_effect hc⟩
  · intro env owner requested toVault howner
    obtain ⟨m', hc⟩ := collectFee_payable hm env requested (fundFees_le m)
       howner (fun s fees => { s with fundFees := fees }) toVault
    exact ⟨m', hc, collectFundFee_effect hc⟩
  · intro env hne
    have hle : ∀ side, m.poolState.creatorFees.get side ≤ m.vault.get side := fun side =>
      (creatorFees_le m side).trans (hm.covered side).le
    obtain ⟨vault, hpay⟩ := payFees_of_le hle ⟨false, false⟩
    obtain ⟨m', hc⟩ : ∃ m', collectCreatorFee m env m.poolState.poolCreator = .ok m' :=
      ⟨_, collectCreatorFee_eq_ok.mpr ⟨rfl, hne, vault, hpay, rfl⟩⟩
    exact ⟨m', hc, collectCreatorFee_effect hc⟩

/-- After two swaps the example pool still owes less than it holds; a third swap leaves
that so, and the protocol owner can take his fees. -/
theorem fees_solvent_examplePool :
    let m := replay Market.step examplePool [examplePush 99900000 100100000 0,
      exampleSwap 1100 .token0 .token1 50000000, exampleSwap 1120 .token1 .token0 30000000]
    (∀ side, m.owed side ≤ m.vault.get side) ∧
    (∃ m' e, m.step (exampleSwap 1140 .token0 .token1 1000000) = .ok (m', e) ∧
      ∀ side, m.owed side ≤ m'.owed side ∧ m'.owed side ≤ m'.vault.get side) ∧
    ∃ m', collectProtocolFee m (exampleEnv 1200) adminId ⟨1000000, 1000000⟩ ⟨false, false⟩ =
        .ok m' ∧
      CollectEffect m m' (collectable m.poolState.protocolFees ⟨1000000, 1000000⟩)
        ⟨false, false⟩ := by
  intro m
  obtain ⟨hcov, -, hkeep, hprotocol, -, -⟩ :=
    fees_solvent m (examplePool_reachable.replay [_, _, _])
  refine ⟨fun side => (hcov side).2, ?_, hprotocol _ adminId _ _ (.inr rfl)⟩
  obtain ⟨⟨m', e⟩, hstep⟩ := exists_of_isOk
    (show (m.step (exampleSwap 1140 .token0 .token1 1000000)).toOption.isSome = true by
      decide +kernel)
  exact ⟨m', e, hstep, hkeep _ m' e hstep rfl⟩

end NomadAmm.Soundness.Solvency

import NomadAmm.Program
import NomadAmm.Soundness.Settlement

/-! What any successful call does to the books of a pool, said once for every
instruction. All invariants are read off `Effect`; none unfolds a handler again. -/

namespace NomadAmm.Soundness.Ledger

open Lib.Checked Lib.Rounding Exec Instructions
open Soundness.Settlement

/-- The calls that collect fees. -/
def isCollect : Op → Bool
  | .collectProtocolFee .. => true
  | .collectFundFee .. => true
  | .collectCreatorFee .. => true
  | _ => false

/-- Each vault covers what is owed in it with something to spare, the static rates are
bounded, and the locked LP tokens exist in the supply only. -/
structure Sound (m : Market) : Prop where
  rates : m.ammConfig.RatesBounded
  covered : ∀ side, m.owed side < m.vault.get side
  vault_lt : ∀ side, m.vault.get side < 2 ^ 64
  supply : m.lpMintSupply + lockLpAmount ≤ m.poolState.lpSupply

theorem Sound.netAmounts {m : Market} (h : Sound m) :
    m.poolState.vaultAmountWithoutFee m.vault.token0 m.vault.token1 = .ok m.nets := by
  refine PoolState.vaultAmountWithoutFee_eq_ok.mpr ?_
  intro side
  have hcov := h.covered side
  have hlt := h.vault_lt side
  unfold Market.owed at hcov
  refine ⟨by omega, hcov.le, ?_⟩
  cases side <;> rfl

theorem Sound.net_pos {m : Market} (h : Sound m) (side : TokenSide) : 1 ≤ m.net side := by
  have := h.covered side
  unfold Market.net
  omega

theorem Sound.net_lt {m : Market} (h : Sound m) (side : TokenSide) : m.net side < 2 ^ 64 :=
  (Nat.sub_le _ _).trans_lt (h.vault_lt side)

theorem Sound.net_add_owed {m : Market} (h : Sound m) (side : TokenSide) :
    m.net side + m.owed side = m.vault.get side := by
  have := h.covered side
  unfold Market.net
  omega

/-- Nothing but the vaults, the fee counters and the LP supply changes. -/
structure Framed (m m' : Market) : Prop where
  config : m'.ammConfig = m.ammConfig
  quoted : quoted m'.poolState = quoted m.poolState

structure DepositEffect (m m' : Market) (k : Nat) : Prop extends Framed m m' where
  vault : ∀ side, m'.vault.get side =
    m.vault.get side + ceilDiv (k * m.net side) m.poolState.lpSupply
  vault_lt : ∀ side, m'.vault.get side < 2 ^ 64
  owed : ∀ side, m'.owed side = m.owed side
  supply : m'.poolState.lpSupply = m.poolState.lpSupply + k
  mint : m'.lpMintSupply = m.lpMintSupply + k

structure WithdrawEffect (m m' : Market) (k : Nat) : Prop extends Framed m m' where
  vault_le : ∀ side, m'.vault.get side ≤ m.vault.get side
  vault : ∀ side, m.vault.get side ≤ m'.vault.get side + k * m.net side / m.poolState.lpSupply
  owed : ∀ side, m'.owed side = m.owed side
  supply : m'.poolState.lpSupply + k = m.poolState.lpSupply
  mint : m'.lpMintSupply + k = m.lpMintSupply

/-- `amount` is taken off the counters and, unless it goes to the vault itself, out of
the vault. -/
structure CollectEffect (m m' : Market) (amount : PerToken Nat) (toVault : PerToken Bool) : Prop
    extends Framed m m' where
  vault : ∀ side, m'.vault.get side + (if toVault.get side then 0 else amount.get side) =
    m.vault.get side
  owed : ∀ side, m'.owed side + amount.get side = m.owed side
  supply : m'.poolState.lpSupply = m.poolState.lpSupply
  mint : m'.lpMintSupply = m.lpMintSupply
  observation : m'.observationState = m.observationState

/-- **What a successful call can do.** -/
inductive Effect (m : Market) : Op → Market → Prop
  | updateAmmConfig {owner param value remaining c} :
      NomadAmm.updateAmmConfig owner m.ammConfig param value remaining = .ok c →
      Effect m (.updateAmmConfig owner param value remaining) { m with ammConfig := c }
  | updatePoolStatus {authority status epoch} :
      Effect m (.updatePoolStatus authority status)
        { m with poolState := { m.poolState with status, recentEpoch := epoch } }
  | updatePoolOracle {keeper bid ask exponent fee slot unix} : 0 < bid → bid ≤ ask →
      fee < feeRateDenominatorValue →
      Effect m (.updatePoolOracle keeper bid ask exponent fee)
        { m with poolState := { m.poolState with
          effectiveBidMantissa := bid, effectiveAskMantissa := ask, priceExponent := exponent
          dynamicFeeRate := fee, lastOracleUpdateSlot := slot, lastOracleUpdateUnix := unix } }
  | setOracleKeeper {authority keeper} :
      Effect m (.setOracleKeeper authority keeper)
        { m with poolState := { m.poolState with oracleKeeper := keeper } }
  | collect {op m'} (amount : PerToken Nat) (toVault : PerToken Bool) : isCollect op = true →
      CollectEffect m m' amount toVault → Effect m op m'
  | deposit {k max0 max1 ownerAmount m'} : DepositEffect m m' k →
      Effect m (.deposit k max0 max1 ownerAmount) m'
  | withdraw {k min0 min1 held toVault m'} : WithdrawEffect m m' k →
      Effect m (.withdraw k min0 min1 held toVault) m'
  | swapBaseInput {inputVault outputVault amountIn minimum user toVault m' env q less swapped} :
      Quoted m env inputVault outputVault q less swapped →
      SwapEffect m m' q.pricing.params.tradeDirection q.pricing.params.isCreatorFeeOnInput toVault
        q.result →
      Effect m (.swapBaseInput inputVault outputVault amountIn minimum user toVault) m'
  | swapBaseOutput {inputVault outputVault maximum amountOut user toVault m' env q less swapped} :
      Quoted m env inputVault outputVault q less swapped →
      SwapEffect m m' q.pricing.params.tradeDirection q.pricing.params.isCreatorFeeOnInput toVault
        q.result →
      Effect m (.swapBaseOutput inputVault outputVault maximum amountOut user toVault) m'
  | donate {side amount user} (credited : Nat) : m.vault.get side + credited < 2 ^ 64 →
      Effect m (.donate side amount user)
        { m with vault := m.vault.set side (m.vault.get side + credited) }
  | burnLp {amount held} : amount ≤ m.lpMintSupply →
      Effect m (.burnLp amount held) { m with lpMintSupply := m.lpMintSupply - amount }

/-! ## One lemma for each instruction -/

variable {m m' : Market} {env : Env}

theorem grossTransfer_eq_ok {mint : Mint} {epoch amount total fee : Nat}
    (h : grossTransfer mint epoch amount = .ok (total, fee)) :
    getTransferInverseFee mint epoch amount = .ok fee ∧ total = amount + fee := by
  simp only [grossTransfer, bind_eq_ok, unwrap_eq_ok, checkedAdd_eq_some, pure_eq_ok,
    Prod.mk.injEq] at h
  obtain ⟨_, hfee, _, ⟨_, rfl⟩, rfl, rfl⟩ := h
  exact ⟨hfee, rfl⟩

/-- One side of a deposit: exactly the curve's amount is credited. -/
theorem deposit_credit {mint : Mint} {epoch user vault vault' amount total fee : Nat}
    (hv : vault < 2 ^ 64) (hgross : grossTransfer mint epoch amount = .ok (total, fee))
    (h : transferFromUserToPoolVault mint epoch user vault total = .ok vault') :
    vault' < 2 ^ 64 ∧ vault' = vault + amount := by
  obtain ⟨hfee, rfl⟩ := grossTransfer_eq_ok hgross
  obtain ⟨credited, hcredit, h64, rfl⟩ := transferFromUserToPoolVault_spec hv h
  rcases hcredit with ⟨h0, rfl⟩ | ⟨_, hc⟩
  · exact ⟨h64, by omega⟩
  · obtain rfl := arriving_of_inverse hfee hc
    exact ⟨h64, rfl⟩

theorem lpAmounts_eq_ok {total : PerToken Nat} {k : Nat} {dir : RoundDirection}
    {results : TradingTokenResult} (h : lpAmounts m total k dir = .ok results) :
    ConstantProductCurve.tokenShare k m.poolState.lpSupply total.token0 dir =
        some results.token0Amount ∧
      ConstantProductCurve.tokenShare k m.poolState.lpSupply total.token1 dir =
        some results.token1Amount ∧
      results.token0Amount ≠ 0 ∧ results.token1Amount ≠ 0 := by
  simp only [lpAmounts, bind_eq_ok, okOr_eq_ok, require_eq_ok, pure_eq_ok,
    CurveCalculator.lpTokensToTradingTokens] at h
  obtain ⟨_, hres, _, ⟨h0, h1⟩, rfl⟩ := h
  obtain ⟨hs0, hs1⟩ := ConstantProductCurve.lpTokensToTradingTokens_eq_some.mp hres
  exact ⟨hs0, hs1, h0, h1⟩

theorem deposit_effect {k max0 max1 : Nat} {ownerAmount : PerToken Nat} {event : LpChangeEvent}
    (hm : Sound m) (h : deposit m env k max0 max1 ownerAmount = .ok (m', event)) :
    DepositEffect m m' k := by
  simp only [deposit, bind_eq_ok, require_eq_ok, unwrap_eq_ok, tryFrom_eq_some, checkedAdd_eq_some,
    tokenMintTo_eq_ok, pure_eq_ok, Prod.mk.injEq, hm.netAmounts, Except.ok.injEq] at h
  obtain ⟨_, _, _, _, _, rfl, results, hres, _, ⟨_, rfl⟩, ⟨total0, fee0⟩, hg0, _, ⟨_, rfl⟩,
    ⟨total1, fee1⟩, hg1, _, _, vault0, hv0, vault1, hv1, _, ⟨_, rfl⟩, _, ⟨_, rfl⟩, rfl, -⟩ := h
  obtain ⟨hs0, hs1, hne0, hne1⟩ := lpAmounts_eq_ok hres
  obtain ⟨hlt0, rfl⟩ := deposit_credit (hm.vault_lt .token0) hg0 hv0
  obtain ⟨hlt1, rfl⟩ := deposit_credit (hm.vault_lt .token1) hg1 hv1
  obtain ⟨_, h0⟩ := ConstantProductCurve.tokenShare_ceiling hs0 hne0
  obtain ⟨_, h1⟩ := ConstantProductCurve.tokenShare_ceiling hs1 hne1
  refine ⟨⟨rfl, rfl⟩, ?_, ?_, fun _ => rfl, rfl, rfl⟩
  · intro side
    cases side with
    | token0 => exact congrArg (m.vault.token0 + ·) h0
    | token1 => exact congrArg (m.vault.token1 + ·) h1
  · intro side
    cases side with
    | token0 => exact hlt0
    | token1 => exact hlt1

/-- One side of a withdrawal: at most the floored share leaves. -/
theorem withdraw_debit {vault vault' net share k supply : Nat} {toVault : Bool}
    (hs : ConstantProductCurve.tokenShare k supply net .floor = some share)
    (h : transferFromPoolVaultToUser vault (min net share) toVault = .ok vault') :
    vault' ≤ vault ∧ vault ≤ vault' + k * net / supply := by
  obtain ⟨_, _, hshare⟩ := ConstantProductCurve.tokenShare_floor.mp hs
  obtain ⟨_, hv⟩ := transferFromPoolVaultToUser_eq_ok.mp h
  rw [hshare]
  cases toVault with
  | true =>
    simp only [if_true] at hv
    exact ⟨by omega, by omega⟩
  | false =>
    simp only [Bool.false_eq_true, if_false] at hv
    exact ⟨by omega, by omega⟩

theorem withdraw_effect {k min0 min1 held : Nat} {toVault : PerToken Bool} {event : LpChangeEvent}
    (hm : Sound m) (h : withdraw m env k min0 min1 held toVault = .ok (m', event)) :
    WithdrawEffect m m' k := by
  simp only [withdraw, bind_eq_ok, require_eq_ok, unwrap_eq_ok, tryFrom_eq_some, checkedSub_eq_some,
    tokenBurn_eq_ok, pure_eq_ok, Prod.mk.injEq, hm.netAmounts, Except.ok.injEq] at h
  obtain ⟨_, _, _, _, _, _, _, rfl, results, hres, _, ⟨_, rfl⟩, ⟨_, _⟩, _, _, ⟨_, rfl⟩, ⟨_, _⟩, _,
    _, _, _, ⟨hsup, rfl⟩, _, ⟨_, hburn, rfl⟩, vault0, hv0, vault1, hv1, rfl, -⟩ := h
  obtain ⟨hs0, hs1, -, -⟩ := lpAmounts_eq_ok hres
  obtain ⟨hle0, hd0⟩ := withdraw_debit hs0 hv0
  obtain ⟨hle1, hd1⟩ := withdraw_debit hs1 hv1
  refine ⟨⟨rfl, rfl⟩, ?_, ?_, fun _ => rfl, Nat.sub_add_cancel hsup, Nat.sub_add_cancel hburn⟩
  · intro side
    cases side with
    | token0 => exact hle0
    | token1 => exact hle1
  · intro side
    cases side with
    | token0 => exact hd0
    | token1 => exact hd1

theorem payFees_eq_ok {vault amount vault' : PerToken Nat} {toVault : PerToken Bool} :
    payFees vault amount toVault = .ok vault' ↔
      ∀ side, amount.get side ≤ vault.get side ∧
        vault'.get side + (if toVault.get side then 0 else amount.get side) = vault.get side := by
  simp only [payFees, bind_eq_ok, transferFromPoolVaultToUser_eq_ok, pure_eq_ok]
  constructor
  · intro h side
    obtain ⟨_, h0, _, h1, rfl⟩ := h
    cases side with
    | token0 => exact h0
    | token1 => exact h1
  · intro h
    exact ⟨_, h .token0, _, h .token1, rfl⟩

theorem lowerFees_collectable {fees requested : PerToken Nat} :
    lowerFees fees (collectable fees requested) =
      .ok ⟨fees.token0 - (collectable fees requested).token0,
        fees.token1 - (collectable fees requested).token1⟩ := by
  have h0 : (collectable fees requested).token0 ≤ fees.token0 := Nat.min_le_right _ _
  have h1 : (collectable fees requested).token1 ≤ fees.token1 := Nat.min_le_right _ _
  simp [lowerFees, checkedSub, h0, h1, unwrap, bind, Except.bind, pure, Except.pure]

theorem collectable_le (fees requested : PerToken Nat) (side : TokenSide) :
    (collectable fees requested).get side ≤ fees.get side := by
  cases side with
  | token0 => exact Nat.min_le_right _ _
  | token1 => exact Nat.min_le_right _ _

/-- Lowered counters, side by side. -/
theorem lowered_get (fees amount : PerToken Nat) (side : TokenSide) :
    (⟨fees.token0 - amount.token0, fees.token1 - amount.token1⟩ : PerToken Nat).get side =
      fees.get side - amount.get side := by
  cases side <;> rfl

/-- Collecting in closed form: who may, and what is left. -/
theorem collectFee_eq_ok {feeOwner owner : Pubkey} {fees requested : PerToken Nat}
    {write : PoolState → PerToken Nat → PoolState} {toVault : PerToken Bool} :
    collectFee m env feeOwner owner fees requested write toVault = .ok m' ↔
      (owner = feeOwner ∨ owner = adminId) ∧ ∃ vault,
        payFees m.vault (collectable fees requested) toVault = .ok vault ∧
        m' = { m with
          poolState := { write m.poolState
            ⟨fees.token0 - (collectable fees requested).token0,
              fees.token1 - (collectable fees requested).token1⟩ with
            recentEpoch := env.clock.epoch }
          vault } := by
  simp only [collectFee, bind_eq_ok, require_eq_ok, lowerFees_collectable, Except.ok.injEq,
    pure_eq_ok]
  constructor
  · intro h
    obtain ⟨_, howner, _, rfl, vault, hpay, rfl⟩ := h
    exact ⟨howner, vault, hpay, rfl⟩
  · intro h
    obtain ⟨howner, vault, hpay, rfl⟩ := h
    exact ⟨(), howner, _, rfl, vault, hpay, rfl⟩

theorem collectProtocolFee_effect {owner : Pubkey} {requested : PerToken Nat}
    {toVault : PerToken Bool} (h : collectProtocolFee m env owner requested toVault = .ok m') :
    CollectEffect m m' (collectable m.poolState.protocolFees requested) toVault := by
  obtain ⟨-, vault, hpay, rfl⟩ := collectFee_eq_ok.mp h
  refine ⟨⟨rfl, rfl⟩, fun side => (payFees_eq_ok.mp hpay side).2, ?_, rfl, rfl, rfl⟩
  intro side
  have hle := collectable_le m.poolState.protocolFees requested side
  simp only [Market.owed, PoolState.owed, lowered_get]
  omega

theorem collectFundFee_effect {owner : Pubkey} {requested : PerToken Nat}
    {toVault : PerToken Bool} (h : collectFundFee m env owner requested toVault = .ok m') :
    CollectEffect m m' (collectable m.poolState.fundFees requested) toVault := by
  obtain ⟨-, vault, hpay, rfl⟩ := collectFee_eq_ok.mp h
  refine ⟨⟨rfl, rfl⟩, fun side => (payFees_eq_ok.mp hpay side).2, ?_, rfl, rfl, rfl⟩
  intro side
  have hle := collectable_le m.poolState.fundFees requested side
  simp only [Market.owed, PoolState.owed, lowered_get]
  omega

theorem collectCreatorFee_eq_ok {creator : Pubkey} :
    collectCreatorFee m env creator = .ok m' ↔ creator = m.poolState.poolCreator ∧
      (m.poolState.creatorFees.token0 ≠ 0 ∨ m.poolState.creatorFees.token1 ≠ 0) ∧
      ∃ vault, payFees m.vault m.poolState.creatorFees ⟨false, false⟩ = .ok vault ∧
        m' = { m with
          poolState := { m.poolState with creatorFees := ⟨0, 0⟩, recentEpoch := env.clock.epoch }
          vault } := by
  simp only [collectCreatorFee, bind_eq_ok, require_eq_ok, pure_eq_ok]
  constructor
  · intro h
    obtain ⟨_, hc, _, hne, vault, hpay, rfl⟩ := h
    exact ⟨hc, hne, vault, hpay, rfl⟩
  · intro h
    obtain ⟨hc, hne, vault, hpay, rfl⟩ := h
    exact ⟨(), hc, (), hne, vault, hpay, rfl⟩

theorem collectCreatorFee_effect {creator : Pubkey}
    (h : collectCreatorFee m env creator = .ok m') :
    CollectEffect m m' m.poolState.creatorFees ⟨false, false⟩ := by
  obtain ⟨-, -, vault, hpay, rfl⟩ := collectCreatorFee_eq_ok.mp h
  refine ⟨⟨rfl, rfl⟩, fun side => (payFees_eq_ok.mp hpay side).2, ?_, rfl, rfl, rfl⟩
  intro side
  cases side <;> simp [Market.owed, PoolState.owed, PerToken.get]

/-- **Every successful call is one of the effects.** -/
theorem step_effect {call : Call} {e : Event} (hm : Sound m)
    (h : m.step call = .ok (m', e)) : Effect m call.op m' := by
  obtain ⟨env, op⟩ := call
  cases op with
  | updateAmmConfig owner param value remaining =>
    simp only [Market.step, Market.quiet, bind_eq_ok, pure_eq_ok, Prod.mk.injEq] at h
    obtain ⟨_, ⟨c, hc, rfl⟩, rfl, -⟩ := h
    exact .updateAmmConfig hc
  | updatePoolStatus authority status =>
    simp only [Market.step, Market.quiet, Instructions.updatePoolStatus, bind_eq_ok, pure_eq_ok,
      Prod.mk.injEq] at h
    obtain ⟨_, ⟨_, _, _, _, rfl⟩, rfl, -⟩ := h
    exact .updatePoolStatus
  | updatePoolOracle keeper bid ask exponent fee =>
    simp only [Market.step, Instructions.updatePoolOracle, bind_eq_ok, require_eq_ok, pure_eq_ok,
      Prod.mk.injEq] at h
    obtain ⟨_, ⟨_, _, _, hbid, _, hask, _, hfee, rfl⟩, rfl, -⟩ := h
    exact .updatePoolOracle hbid hask hfee
  | setOracleKeeper authority keeper =>
    simp only [Market.step, Market.quiet, Instructions.setOracleKeeper, bind_eq_ok, pure_eq_ok,
      Prod.mk.injEq] at h
    obtain ⟨_, ⟨_, _, rfl⟩, rfl, -⟩ := h
    exact .setOracleKeeper
  | collectProtocolFee owner requested toVault =>
    simp only [Market.step, Market.quiet, bind_eq_ok, pure_eq_ok, Prod.mk.injEq] at h
    obtain ⟨_, hc, rfl, -⟩ := h
    exact .collect _ _ rfl (collectProtocolFee_effect hc)
  | collectFundFee owner requested toVault =>
    simp only [Market.step, Market.quiet, bind_eq_ok, pure_eq_ok, Prod.mk.injEq] at h
    obtain ⟨_, hc, rfl, -⟩ := h
    exact .collect _ _ rfl (collectFundFee_effect hc)
  | collectCreatorFee creator =>
    simp only [Market.step, Market.quiet, bind_eq_ok, pure_eq_ok, Prod.mk.injEq] at h
    obtain ⟨_, hc, rfl, -⟩ := h
    exact .collect _ _ rfl (collectCreatorFee_effect hc)
  | deposit k max0 max1 ownerAmount =>
    simp only [Market.step, bind_eq_ok, pure_eq_ok, Prod.mk.injEq] at h
    obtain ⟨⟨_, _⟩, hd, rfl, -⟩ := h
    exact .deposit (deposit_effect hm hd)
  | withdraw k min0 min1 held toVault =>
    simp only [Market.step, bind_eq_ok, pure_eq_ok, Prod.mk.injEq] at h
    obtain ⟨⟨_, _⟩, hw, rfl, -⟩ := h
    exact .withdraw (withdraw_effect hm hw)
  | swapBaseInput inputVault outputVault amountIn minimum user toVault =>
    simp only [Market.step, Instructions.swapBaseInput, bind_eq_ok, pure_eq_ok, Prod.mk.injEq] at h
    obtain ⟨⟨_, _⟩, ⟨q, hquote, hsettle⟩, rfl, -⟩ := h
    obtain ⟨less, swapped, hq, -⟩ := quoteBaseInput_spec hquote
    exact .swapBaseInput hq (settleSwap_spec hm.vault_lt hq hsettle).2.2.1
  | swapBaseOutput inputVault outputVault maximum amountOut user toVault =>
    simp only [Market.step, Instructions.swapBaseOutput, bind_eq_ok, pure_eq_ok,
      Prod.mk.injEq] at h
    obtain ⟨⟨_, _⟩, ⟨q, hquote, hsettle⟩, rfl, -⟩ := h
    obtain ⟨less, swapped, hq, -⟩ := quoteBaseOutput_spec hquote
    exact .swapBaseOutput hq (settleSwap_spec hm.vault_lt hq hsettle).2.2.1
  | donate side amount user =>
    simp only [Market.step, Market.quiet, Market.donate, bind_eq_ok, pure_eq_ok,
      Prod.mk.injEq] at h
    obtain ⟨_, ⟨_, hv, rfl⟩, rfl, -⟩ := h
    obtain ⟨credited, -, h64, rfl⟩ := transferFromUserToPoolVault_spec (hm.vault_lt side) hv
    exact .donate credited h64
  | burnLp amount held =>
    simp only [Market.step, Market.quiet, Market.burnLp, bind_eq_ok, tokenBurn_eq_ok, pure_eq_ok,
      Prod.mk.injEq] at h
    obtain ⟨_, ⟨_, ⟨_, hle, rfl⟩, rfl⟩, rfl, -⟩ := h
    exact .burnLp hle

end NomadAmm.Soundness.Ledger

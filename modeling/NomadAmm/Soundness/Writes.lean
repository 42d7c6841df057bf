import NomadAmm.Soundness.Ledger
import NomadAmm.World.Instructions

/-! What one step of a market writes of its pool and config, and whose signature that
takes. A call on the accounts writes the same, even where it is no step of the market. -/

namespace NomadAmm.Soundness.Writes

open Lib.Checked Exec Instructions
open Soundness.Settlement Soundness.Ledger

variable {m m' : Market} {env : Env}

/-- Whose signature the pool's own checks are about, if there is one. -/
def signer? : Op → Option Pubkey
  | .updateAmmConfig owner .. => some owner
  | .updatePoolStatus authority _ => some authority
  | .updatePoolOracle oracleKeeper .. => some oracleKeeper
  | .setOracleKeeper authority _ => some authority
  | .collectProtocolFee owner .. => some owner
  | .collectFundFee owner .. => some owner
  | .collectCreatorFee creator => some creator
  | _ => none

/-- **What one step writes** of a pool and its config, by whom it has to be signed. -/
inductive Write (m : Market) : Op → Market → Prop
  | ammConfig {param value remaining c} :
      Write m (.updateAmmConfig adminId param value remaining) { m with ammConfig := c }
  | status {status epoch} : Write m (.updatePoolStatus adminId status)
      { m with poolState := { m.poolState with status, recentEpoch := epoch } }
  | quote {bid ask exponent fee slot unix} :
      Write m (.updatePoolOracle m.poolState.oracleKeeper bid ask exponent fee)
        { m with poolState := { m.poolState with
          effectiveBidMantissa := bid, effectiveAskMantissa := ask, priceExponent := exponent
          dynamicFeeRate := fee, lastOracleUpdateSlot := slot, lastOracleUpdateUnix := unix } }
  | oracleKeeper {keeper} : Write m (.setOracleKeeper adminId keeper)
      { m with poolState := { m.poolState with oracleKeeper := keeper } }
  | protocolFees {owner requested toVault protocolFees epoch vault} :
      owner = m.ammConfig.protocolOwner ∨ owner = adminId →
      Write m (.collectProtocolFee owner requested toVault)
        { m with poolState := { m.poolState with protocolFees, recentEpoch := epoch }, vault }
  | fundFees {owner requested toVault fundFees epoch vault} :
      owner = m.ammConfig.fundOwner ∨ owner = adminId →
      Write m (.collectFundFee owner requested toVault)
        { m with poolState := { m.poolState with fundFees, recentEpoch := epoch }, vault }
  | creatorFees {epoch vault} : Write m (.collectCreatorFee m.poolState.poolCreator)
      { m with
        poolState := { m.poolState with creatorFees := ⟨0, 0⟩, recentEpoch := epoch }, vault }
  | swap {op direction side protocolFee fundFee creatorFee epoch vault observationState} :
      m.poolState.enableCreatorFee = true ∨ creatorFee = 0 →
      Write m op { m with
        poolState := { m.poolState with
          protocolFees := m.poolState.protocolFees.set direction
            (m.poolState.protocolFees.get direction + protocolFee)
          fundFees := m.poolState.fundFees.set direction
            (m.poolState.fundFees.get direction + fundFee)
          creatorFees := m.poolState.creatorFees.set side
            (m.poolState.creatorFees.get side + creatorFee)
          recentEpoch := epoch }
        vault
        observationState }
  | plain {op m'} (lpSupply epoch : Nat) : m'.ammConfig = m.ammConfig →
      m'.poolState = { m.poolState with lpSupply, recentEpoch := epoch } → Write m op m'

/-- What a swap adds to the counters, whoever pays. -/
theorem updateFees_write {op : Op} {inputVault outputVault : TokenSide}
    {less swapped protocolFee fundFee creatorFee epoch : Nat} {q : SwapQuote}
    {poolState : PoolState} (hq : Quoted m env inputVault outputVault q less swapped)
    (h : m.poolState.updateFees protocolFee fundFee creatorFee q.pricing.params.tradeDirection =
      .ok poolState)
    (vault : PerToken Nat) (observationState : ObservationState) :
    Write m op { m with
      poolState := { poolState with recentEpoch := epoch }, vault, observationState } := by
  obtain ⟨cached, -, hprice⟩ := hq.cached
  obtain ⟨rfl, rfl, hon⟩ := priceSwap_sides hprice
  obtain ⟨henabled, -, -, -, rfl⟩ := (PoolState.updateFees_eq_ok hon).mp h
  exact .swap henabled

theorem settleSwap_write {op : Op} {inputVault outputVault : TokenSide}
    {userAmount less swapped : Nat} {toVault : Bool} {q : SwapQuote} {receipt : SwapReceipt}
    (hq : Quoted m env inputVault outputVault q less swapped)
    (h : settleSwap m env inputVault outputVault userAmount toVault q = .ok (m', receipt)) :
    Write m op m' := by
  simp only [settleSwap, bind_eq_ok, pure_eq_ok, Prod.mk.injEq] at h
  obtain ⟨_, -, _, -, _, -, poolState, hfees, event, -, vin, -, vout, -, obs, -, rfl, -⟩ := h
  exact updateFees_write hq hfees _ obs

theorem step_write {call : Call} {event : Event} (h : m.step call = .ok (m', event)) :
    Write m call.op m' := by
  obtain ⟨env, op⟩ := call
  cases op with
  | updateAmmConfig owner param value remaining =>
    simp only [Market.step, Market.quiet, NomadAmm.updateAmmConfig, bind_eq_ok, require_eq_ok,
      pure_eq_ok, Prod.mk.injEq] at h
    obtain ⟨_, ⟨c, ⟨_, rfl, -⟩, rfl⟩, rfl, -⟩ := h
    exact .ammConfig
  | updatePoolStatus authority status =>
    simp only [Market.step, Market.quiet, Instructions.updatePoolStatus, bind_eq_ok, require_eq_ok,
      pure_eq_ok, Prod.mk.injEq] at h
    obtain ⟨_, ⟨_, rfl, _, -, rfl⟩, rfl, -⟩ := h
    exact .status
  | updatePoolOracle keeper bid ask exponent fee =>
    simp only [Market.step, Instructions.updatePoolOracle, bind_eq_ok, require_eq_ok, pure_eq_ok,
      Prod.mk.injEq] at h
    obtain ⟨_, ⟨_, rfl, _, -, _, -, _, -, rfl⟩, rfl, -⟩ := h
    exact .quote
  | setOracleKeeper authority keeper =>
    simp only [Market.step, Market.quiet, Instructions.setOracleKeeper, bind_eq_ok, require_eq_ok,
      pure_eq_ok, Prod.mk.injEq] at h
    obtain ⟨_, ⟨_, rfl, rfl⟩, rfl, -⟩ := h
    exact .oracleKeeper
  | collectProtocolFee owner requested toVault =>
    simp only [Market.step, Market.quiet, bind_eq_ok, pure_eq_ok, Prod.mk.injEq] at h
    obtain ⟨_, hc, rfl, -⟩ := h
    obtain ⟨howner, vault, -, rfl⟩ := collectFee_eq_ok.mp hc
    exact .protocolFees howner
  | collectFundFee owner requested toVault =>
    simp only [Market.step, Market.quiet, bind_eq_ok, pure_eq_ok, Prod.mk.injEq] at h
    obtain ⟨_, hc, rfl, -⟩ := h
    obtain ⟨howner, vault, -, rfl⟩ := collectFee_eq_ok.mp hc
    exact .fundFees howner
  | collectCreatorFee creator =>
    simp only [Market.step, Market.quiet, bind_eq_ok, pure_eq_ok, Prod.mk.injEq] at h
    obtain ⟨_, hc, rfl, -⟩ := h
    obtain ⟨rfl, -, vault, -, rfl⟩ := collectCreatorFee_eq_ok.mp hc
    exact .creatorFees
  | deposit k max0 max1 ownerAmount =>
    simp only [Market.step, deposit_eq, bind_eq_ok, pure_eq_ok, Prod.mk.injEq, Prod.exists] at h
    obtain ⟨_, _, ⟨_, _, -, _, -, _, -, _, -, _, -, rfl, -⟩, rfl, -⟩ := h
    exact .plain _ _ rfl rfl
  | withdraw k min0 min1 held toVault =>
    simp only [Market.step, withdraw_eq, bind_eq_ok, pure_eq_ok, Prod.mk.injEq, Prod.exists] at h
    obtain ⟨_, _, ⟨_, _, -, _, -, _, -, _, -, _, -, rfl, -⟩, rfl, -⟩ := h
    exact .plain _ _ rfl rfl
  | swapBaseInput inputVault outputVault amountIn minimum user toVault =>
    simp only [Market.step, Instructions.swapBaseInput, bind_eq_ok, pure_eq_ok, Prod.mk.injEq] at h
    obtain ⟨⟨_, _⟩, ⟨q, hquote, hsettle⟩, rfl, -⟩ := h
    obtain ⟨less, swapped, hq, -⟩ := quoteBaseInput_spec hquote
    exact settleSwap_write hq hsettle
  | swapBaseOutput inputVault outputVault maximum amountOut user toVault =>
    simp only [Market.step, Instructions.swapBaseOutput, bind_eq_ok, pure_eq_ok,
      Prod.mk.injEq] at h
    obtain ⟨⟨_, _⟩, ⟨q, hquote, hsettle⟩, rfl, -⟩ := h
    obtain ⟨less, swapped, hq, -⟩ := quoteBaseOutput_spec hquote
    exact settleSwap_write hq hsettle
  | donate side amount user =>
    simp only [Market.step, Market.quiet, Market.donate, bind_eq_ok, pure_eq_ok,
      Prod.mk.injEq] at h
    obtain ⟨_, ⟨_, -, rfl⟩, rfl, -⟩ := h
    exact .plain _ _ rfl rfl
  | burnLp amount held =>
    simp only [Market.step, Market.quiet, Market.burnLp, bind_eq_ok, pure_eq_ok,
      Prod.mk.injEq] at h
    obtain ⟨_, ⟨_, -, rfl⟩, rfl, -⟩ := h
    exact .plain _ _ rfl rfl

end NomadAmm.Soundness.Writes

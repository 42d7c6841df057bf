import NomadAmm.Client.Commands
import NomadAmm.Soundness.ClientFees
import NomadAmm.Soundness.Ledger

/-! The amounts the command line shows and bounds against those the program moves. Both
convert LP tokens by the same function; the program rounds a withdrawal down, and the
command line rounds it up. -/

namespace NomadAmm.Soundness.Previews

open Lib.Checked Lib.Rounding Exec Instructions
open Soundness.Ledger

variable {m m' : Market} {env : Env} {k min0 min1 held : Nat} {toVault : PerToken Bool}
  {event : LpChangeEvent} {total : PerToken Nat}

/-! ## What a withdrawal moves -/

/-- One side: the floored share leaves the pool, and a transfer fee is withheld of it. -/
structure SharePaid (mint : Mint) (epoch k supply net receive fee : Nat) : Prop where
  share : ConstantProductCurve.tokenShare k supply net .floor = some (k * net / supply)
  pos : 0 < k * net / supply
  paid : receive + fee = min net (k * net / supply)
  charged : getTransferFee mint epoch (receive + fee) = .ok fee

/-- A withdrawal that went through for some minima, and would have for any others that it
meets. -/
structure Withdrawn (m : Market) (env : Env) (k held : Nat) (toVault : PerToken Bool) (m' : Market)
    (event : LpChangeEvent) (total : PerToken Nat) : Prop where
  total_eq : m.poolState.vaultAmountWithoutFee m.vault.token0 m.vault.token1 = .ok total
  le_supply : k ≤ m.poolState.lpSupply
  supply_pos : 0 < m.poolState.lpSupply
  token0 : SharePaid (env.mint .token0) env.clock.epoch k m.poolState.lpSupply total.token0
    event.token0Amount event.token0TransferFee
  token1 : SharePaid (env.mint .token1) env.clock.epoch k m.poolState.lpSupply total.token1
    event.token1Amount event.token1TransferFee
  minima : ∀ min0 min1, withdraw m env k min0 min1 held toVault =
    if min0 ≤ event.token0Amount ∧ min1 ≤ event.token1Amount then .ok (m', event)
    else .error (.code .exceededSlippage)

theorem netTransfer_eq_ok {mint : Mint} {epoch amount receive fee : Nat}
    (h : netTransfer mint epoch amount = .ok (receive, fee)) :
    receive + fee = amount ∧ getTransferFee mint epoch amount = .ok fee := by
  simp only [netTransfer, bind_eq_ok, unwrap_eq_ok, checkedSub_eq_some, pure_eq_ok,
    Prod.mk.injEq] at h
  obtain ⟨_, hfee, _, ⟨hle, rfl⟩, rfl, rfl⟩ := h
  exact ⟨by omega, hfee⟩

theorem sharePaid_of_net {mint : Mint} {epoch supply net share receive fee : Nat}
    (hs : ConstantProductCurve.tokenShare k supply net .floor = some share) (hne : share ≠ 0)
    (hnet : netTransfer mint epoch (min net share) = .ok (receive, fee)) :
    SharePaid mint epoch k supply net receive fee := by
  obtain ⟨-, -, rfl⟩ := ConstantProductCurve.tokenShare_floor.mp hs
  obtain ⟨hpaid, hfee⟩ := netTransfer_eq_ok hnet
  exact ⟨hs, Nat.pos_of_ne_zero hne, hpaid, by rwa [hpaid]⟩

theorem withdraw_spec (h : withdraw m env k min0 min1 held toVault = .ok (m', event)) :
    ∃ total, Withdrawn m env k held toVault m' event total := by
  simp only [withdraw, bind_eq_ok, require_eq_ok, unwrap_eq_ok, tryFrom_eq_some, checkedSub_eq_some,
    pure_eq_ok, Prod.mk.injEq] at h
  obtain ⟨_, hk, _, hheld, _, hopen, total, htotal, results, hres, _, ⟨h0, rfl⟩,
    ⟨receive0, fee0⟩, hnet0, _, ⟨h1, rfl⟩, ⟨receive1, fee1⟩, hnet1, _, _, _, ⟨hsup, rfl⟩, minted,
    hburn, vault0, hv0, vault1, hv1, rfl, rfl⟩ := h
  obtain ⟨hs0, hs1, hne0, hne1⟩ := lpAmounts_eq_ok hres
  obtain ⟨-, hsupply, -⟩ := ConstantProductCurve.tokenShare_floor.mp hs0
  refine ⟨total, htotal, hsup, Nat.pos_of_ne_zero hsupply, sharePaid_of_net hs0 hne0 hnet0,
    sharePaid_of_net hs1 hne1 hnet1, ?_⟩
  · intro c d
    have hshare0 : tryFrom 64 results.token0Amount = some results.token0Amount :=
      tryFrom_eq_some.mpr ⟨h0, rfl⟩
    have hshare1 : tryFrom 64 results.token1Amount = some results.token1Amount :=
      tryFrom_eq_some.mpr ⟨h1, rfl⟩
    have hsub : checkedSub m.poolState.lpSupply k = some (m.poolState.lpSupply - k) :=
      checkedSub_eq_some.mpr ⟨hsup, rfl⟩
    simp only [withdraw, require_pos hk, require_pos hheld, require_pos hopen, htotal, hres,
      hshare0, hnet0, hshare1, hnet1, hsub, hburn, hv0, hv1, ok_bind, unwrap]
    by_cases hmin : c ≤ receive0 ∧ d ≤ receive1
    · rw [require_pos hmin, if_pos hmin]
      rfl
    · rw [require_neg hmin, if_neg hmin]
      rfl

/-! ## What the command line previews -/

/-- Rounded up, a share is the one paid exactly when nothing is left over. -/
theorem SharePaid.preview {mint : Mint} {epoch supply net receive fee : Nat}
    (h : SharePaid mint epoch k supply net receive fee) (hs : 0 < supply) (hk : k ≤ supply) :
    ConstantProductCurve.tokenShare k supply net .ceiling = some (ceilDiv (k * net) supply) ∧
      receive + fee ≤ ceilDiv (k * net) supply ∧ ceilDiv (k * net) supply ≤ net ∧
      (ceilDiv (k * net) supply = receive + fee ↔ supply ∣ k * net) := by
  have hle : ceilDiv (k * net) supply ≤ net := ceilDiv_mul_le hs hk
  have hfloor : k * net / supply ≤ ceilDiv (k * net) supply := by
    rw [ceilDiv_eq _ hs]
    split <;> omega
  have hpaid : receive + fee = k * net / supply :=
    h.paid.trans (Nat.min_eq_right (hfloor.trans hle))
  refine ⟨ConstantProductCurve.tokenShare_ceiling_of_floor h.share h.pos.ne', ?_, hle, ?_⟩
  · rwa [hpaid]
  · rw [hpaid, ceilDiv_eq_div_iff hs]

theorem clientAmounts_eq_ok {results : TradingTokenResult} {dir : RoundDirection}
    (htotal : m.poolState.vaultAmountWithoutFee m.vault.token0 m.vault.token1 = .ok total)
    (h0 : ConstantProductCurve.tokenShare k m.poolState.lpSupply total.token0 dir =
      some results.token0Amount)
    (h1 : ConstantProductCurve.tokenShare k m.poolState.lpSupply total.token1 dir =
      some results.token1Amount) :
    Client.lpTokensToTradingTokens m k dir = .ok results := by
  have hresults := ConstantProductCurve.lpTokensToTradingTokens_eq_some.mpr ⟨h0, h1⟩
  simp only [Client.lpTokensToTradingTokens, htotal, Client.unwrapOk, ok_bind,
    CurveCalculator.lpTokensToTradingTokens, hresults, unwrap]

/-- The deposit command rounds as the program does. -/
theorem deposit_preview {max0 max1 : Nat} {ownerAmount : PerToken Nat}
    (h : deposit m env k max0 max1 ownerAmount = .ok (m', event)) :
    Client.depositAmounts m k = .ok ⟨event.token0Amount, event.token1Amount⟩ := by
  simp only [deposit, bind_eq_ok, require_eq_ok, unwrap_eq_ok, tryFrom_eq_some, pure_eq_ok,
    Prod.mk.injEq] at h
  obtain ⟨_, _, _, _, total, htotal, results, hres, _, ⟨_, rfl⟩, ⟨_, _⟩, _, _, ⟨_, rfl⟩, ⟨_, _⟩, _,
    _, _, _, _, _, _, _, _, _, _, _, rfl⟩ := h
  obtain ⟨hs0, hs1, -⟩ := lpAmounts_eq_ok hres
  exact clientAmounts_eq_ok htotal hs0 hs1

/-- The LP tokens are an exact share of both reserves. -/
def Exact (m : Market) (k : Nat) : Prop := ∀ side, m.poolState.lpSupply ∣ k * m.net side

/-- Both sides of a preview at once. -/
theorem Withdrawn.preview (h : Withdrawn m env k held toVault m' event total)
    (hvault : ∀ side, m.vault.get side < 2 ^ 64) :
    ∃ amount0 amount1, Client.withdrawAmounts m k = .ok ⟨amount0, amount1⟩ ∧
      (amount0 < 2 ^ 64 ∧ amount1 < 2 ^ 64) ∧
      (event.token0Amount + event.token0TransferFee ≤ amount0 ∧
        event.token1Amount + event.token1TransferFee ≤ amount1) ∧
      ((amount0 = event.token0Amount + event.token0TransferFee ∧
        amount1 = event.token1Amount + event.token1TransferFee) ↔ Exact m k) := by
  obtain ⟨hshare0, hle0, hnet0, hiff0⟩ := h.token0.preview h.supply_pos h.le_supply
  obtain ⟨hshare1, hle1, hnet1, hiff1⟩ := h.token1.preview h.supply_pos h.le_supply
  have hside := PoolState.vaultAmountWithoutFee_eq_ok.mp h.total_eq
  have htotal0 : total.token0 = m.net .token0 := (hside .token0).2.2
  have htotal1 : total.token1 = m.net .token1 := (hside .token1).2.2
  have hlt : ∀ side, m.net side < 2 ^ 64 := fun side => (Nat.sub_le _ _).trans_lt (hvault side)
  refine ⟨ceilDiv (k * total.token0) m.poolState.lpSupply,
    ceilDiv (k * total.token1) m.poolState.lpSupply,
    clientAmounts_eq_ok h.total_eq hshare0 hshare1, ⟨?_, ?_⟩, ⟨hle0, hle1⟩, ?_⟩
  · exact hnet0.trans_lt (htotal0 ▸ hlt .token0)
  · exact hnet1.trans_lt (htotal1 ▸ hlt .token1)
  · rw [hiff0, hiff1, htotal0, htotal1]
    constructor
    · intro hexact side
      cases side with
      | token0 => exact hexact.1
      | token1 => exact hexact.2
    · intro hexact
      exact ⟨hexact .token0, hexact .token1⟩

/-- A mint that withholds nothing in any epoch, with the extension or without. -/
def Untaxed (mint : Mint) : Prop :=
  mint.owner = .token ∨ ∀ config, mint.transferFeeConfig = some config →
    ∀ epoch amount, config.calculateEpochFee epoch amount = some 0

theorem clientFee_untaxed {mint : Mint} (h : Untaxed mint) (epoch amount : Nat) :
    Client.getTransferFee (Client.unpackMint mint) epoch amount = .ok 0 := by
  cases hunpack : Client.unpackMint mint with
  | none => rfl
  | some config =>
    obtain ⟨howner, hconfig⟩ := ClientFees.unpackMint_eq_some hunpack
    exact unwrap_eq_ok.mpr (h.resolve_left howner config hconfig epoch amount)

/-- Without slippage and transfer fees the command sends its amounts as minima. -/
theorem withdraw_command {amount0 amount1 : Nat} (hfree0 : Untaxed (env.mint .token0))
    (hfree1 : Untaxed (env.mint .token1)) (h0 : amount0 < 2 ^ 64) (h1 : amount1 < 2 ^ 64)
    (h : Client.withdrawAmounts m k = .ok ⟨amount0, amount1⟩) :
    Client.withdraw (fun amount _ => amount) m env k =
      .ok ⟨⟨amount0, amount1⟩, amount0, amount1⟩ := by
  have hfees : Client.getPoolMintsTransferFee env .token0 .token1 amount0 amount1 =
      .ok (⟨.token0, (env.mint .token0).owner, 0⟩, ⟨.token1, (env.mint .token1).owner, 0⟩) :=
    Client.getPoolMintsFee_eq_ok.mpr ⟨clientFee_untaxed hfree0 _ _, clientFee_untaxed hfree1 _ _⟩
  simp only [Client.withdraw, h, ok_bind, Nat.mod_eq_of_lt h0, Nat.mod_eq_of_lt h1, hfees]
  rfl

/-- What the program charges the client finds too, and for such a mint it is nothing. -/
theorem untaxed_charged {mint : Mint} {epoch supply net receive fee : Nat} (hfree : Untaxed mint)
    (h : SharePaid mint epoch k supply net receive fee) : fee = 0 :=
  Except.ok.inj ((ClientFees.clientFee_of_fee h.charged).symm.trans (clientFee_untaxed hfree _ _))

/-- **A withdrawal is previewed exactly when nothing is left over**, a deposit always. The
amounts of a withdrawal are what its event says arrived and was withheld; sent as minima,
where nothing is withheld, they are met exactly then. -/
theorem previews_iff (m : Market) (env : Env) (k : Nat)
    (hvault : ∀ side, m.vault.get side < 2 ^ 64) :
    (∀ max0 max1 ownerAmount m' event, deposit m env k max0 max1 ownerAmount = .ok (m', event) →
      Client.depositAmounts m k = .ok ⟨event.token0Amount, event.token1Amount⟩) ∧
    (∀ min0 min1 held toVault m' event,
      withdraw m env k min0 min1 held toVault = .ok (m', event) →
      (Client.withdrawAmounts m k = .ok ⟨event.token0Amount + event.token0TransferFee,
          event.token1Amount + event.token1TransferFee⟩ ↔ Exact m k) ∧
      (Untaxed (env.mint .token0) → Untaxed (env.mint .token1) →
        ∃ command, Client.withdraw (fun amount _ => amount) m env k = .ok command ∧
          (withdraw m env k command.amount0Bound command.amount1Bound held toVault ≠
            .error (.code .exceededSlippage) ↔ Exact m k))) := by
  constructor
  · intro max0 max1 ownerAmount m' event h
    exact deposit_preview h
  · intro min0 min1 held toVault m' event h
    obtain ⟨total, hw⟩ := withdraw_spec h
    obtain ⟨amount0, amount1, hamounts, ⟨h0, h1⟩, ⟨hle0, hle1⟩, hexact⟩ := hw.preview hvault
    constructor
    · rw [hamounts, ← hexact]
      simp only [Except.ok.injEq, TradingTokenResult.mk.injEq]
    · intro hfree0 hfree1
      refine ⟨_, withdraw_command hfree0 hfree1 h0 h1 hamounts, ?_⟩
      have hfee0 := untaxed_charged hfree0 hw.token0
      have hfee1 := untaxed_charged hfree1 hw.token1
      rw [hw.minima, ← hexact, hfee0, hfee1]
      by_cases hmet : amount0 ≤ event.token0Amount ∧ amount1 ≤ event.token1Amount
      · rw [if_pos hmet]
        exact iff_of_true nofun (by omega)
      · rw [if_neg hmet]
        exact iff_of_false (fun hne => hne rfl) (by omega)

/-- The example pool after a donation of one unit of token_0. -/
def donatedPool : Market :=
  Lib.Transition.replay Market.step examplePool [⟨exampleEnv 1050, .donate .token0 1 1⟩]

/-- Half of an odd reserve: the minimum sent is one unit more than what leaves. -/
theorem previews_differ :
    donatedPool.Reachable ∧
    (∃ m' event, withdraw donatedPool (exampleEnv 1100) 500000000 0 0 999999900 ⟨false, false⟩ =
        .ok (m', event) ∧
      event.token0Amount = 500000000 ∧ event.token0TransferFee = 0) ∧
    Client.withdraw (fun amount _ => amount) donatedPool (exampleEnv 1100) 500000000 =
      .ok ⟨⟨500000001, 500000000⟩, 500000001, 500000000⟩ ∧
    withdraw donatedPool (exampleEnv 1100) 500000000 500000001 500000000 999999900 ⟨false, false⟩ =
      .error (.code .exceededSlippage) := by
  refine ⟨examplePool_reachable.replay _, ?_, by decide +kernel, by decide +kernel⟩
  obtain ⟨⟨m', event⟩, h⟩ := exists_of_isOk (show (withdraw donatedPool (exampleEnv 1100) 500000000
    0 0 999999900 ⟨false, false⟩).toOption.isSome = true by decide +kernel)
  have hevent := forall_of_all (p := fun r : Market × LpChangeEvent =>
    r.2.token0Amount = 500000000 ∧ r.2.token0TransferFee = 0) (by decide +kernel) _ h
  exact ⟨m', event, h, hevent⟩

/-- Half of the even reserves is an exact share. -/
theorem previews_iff_exact :
    ∃ m' event, withdraw examplePool (exampleEnv 1100) 500000000 0 0 999999900 ⟨false, false⟩ =
        .ok (m', event) ∧
      Client.withdrawAmounts examplePool 500000000 =
        .ok ⟨event.token0Amount + event.token0TransferFee,
          event.token1Amount + event.token1TransferFee⟩ := by
  obtain ⟨⟨m', event⟩, h⟩ := exists_of_isOk (show (withdraw examplePool (exampleEnv 1100) 500000000
    0 0 999999900 ⟨false, false⟩).toOption.isSome = true by decide +kernel)
  have hvault : ∀ side, examplePool.vault.get side < 2 ^ 64 := by
    intro side
    cases side <;> decide +kernel
  have hexact : Exact examplePool 500000000 := by
    intro side
    cases side <;> decide +kernel
  exact ⟨m', event, h, (((previews_iff examplePool (exampleEnv 1100) 500000000 hvault).2 _ _ _ _ _ _
    h).1).mpr hexact⟩

end NomadAmm.Soundness.Previews

import NomadAmm.Lib.Redemption
import NomadAmm.Soundness.Solvency
import NomadAmm.Soundness.TransferFees
import NomadAmm.Soundness.Writes

/-! The way out. An LP can withdraw whenever withdrawing is open and his share of both
reserves is not zero, and nothing but trading can make the share smaller: not the others
leaving before him, and not the collection of fees. -/

namespace NomadAmm.Soundness.Exit

open Lib.Checked Lib.Rounding Lib.CappedFee Lib.Redemption Lib.Transition Exec Instructions
open Soundness.Settlement Soundness.Ledger Soundness.Solvency Soundness.Writes
open Soundness.TransferFees (Documented documented_exampleFeeMint exampleFeeEnv)

variable {m m' : Market} {env : Env} {k : Nat} {side : TokenSide} {mint : Mint}
  {epoch amount : Nat}

/-- What is withheld from a transfer of a documented mint. -/
def feeOf (mint : Mint) (epoch amount : Nat) : Nat :=
  match mint.owner, mint.transferFeeConfig with
  | .token2022, some config => config.documentedFee epoch amount
  | _, _ => 0

theorem getTransferFee_documented (h : Documented mint) (epoch : Nat) (hlt : amount < 2 ^ 64) :
    getTransferFee mint epoch amount = .ok (feeOf mint epoch amount) := by
  unfold getTransferFee feeOf
  cases howner : mint.owner with
  | token => rfl
  | token2022 =>
    cases hconfig : mint.transferFeeConfig with
    | none => rfl
    | some config => exact unwrap_eq_ok.mpr ((h config hconfig).calculate epoch amount hlt)

theorem fee_le (h : Documented mint) (epoch amount : Nat) : feeOf mint epoch amount ≤ amount := by
  unfold feeOf
  split
  · next config _ hconfig =>
    exact cappedFee_le ((h config hconfig).rate_le epoch) (by decide) _ _
  · exact Nat.zero_le _

/-- More sent is more received. -/
theorem received_mono (h : Documented mint) (epoch : Nat) {amount' : Nat} (hle : amount ≤ amount') :
    amount - feeOf mint epoch amount ≤ amount' - feeOf mint epoch amount' := by
  unfold feeOf
  split
  · next config _ hconfig =>
    exact sub_cappedFee_mono ((h config hconfig).rate_le epoch) (by decide) _ hle
  · exact hle

theorem exampleEnv_documented (side : TokenSide) : Documented ((exampleEnv 1030).mint side) := by
  intro config h
  cases side <;> cases h

/-! ## When a withdrawal succeeds -/

/-- The share of a reserve that LP tokens stand for. -/
def share (m : Market) (k : Nat) (side : TokenSide) : Nat :=
  redeem k (m.net side) m.poolState.lpSupply

/-- What its owner receives of it. -/
def received (m : Market) (env : Env) (k : Nat) (side : TokenSide) : Nat :=
  share m k side - feeOf (env.mint side) env.clock.epoch (share m k side)

/-- What a withdrawal reports. -/
def withdrawn (m : Market) (env : Env) (k : Nat) : LpChangeEvent where
  lpAmountBefore := m.poolState.lpSupply
  token0VaultBefore := m.net .token0
  token1VaultBefore := m.net .token1
  token0Amount := received m env k .token0
  token1Amount := received m env k .token1
  token0TransferFee := feeOf (env.mint .token0) env.clock.epoch (share m k .token0)
  token1TransferFee := feeOf (env.mint .token1) env.clock.epoch (share m k .token1)
  changeType := 1

/-- The conditions of a withdrawal. -/
structure CanLeave (m : Market) (env : Env) (k min0 min1 held : Nat) : Prop where
  pos : 0 < k
  held : k ≤ held
  supply : k ≤ m.lpMintSupply
  isOpen : m.poolState.getStatusByBit .withdraw = true
  share_ne : ∀ side, share m k side ≠ 0
  minimum : min0 ≤ received m env k .token0 ∧ min1 ≤ received m env k .token1

theorem share_le_net (hm : Sound m) (hk : k ≤ m.lpMintSupply) (side : TokenSide) :
    share m k side ≤ m.net side := by
  have hsupply := hm.supply
  exact redeem_le (by omega)

theorem tokenShare_eq_some (hm : Sound m) (hk : k < 2 ^ 64) (side : TokenSide) {t : Nat} :
    ConstantProductCurve.tokenShare k m.poolState.lpSupply (m.net side) .floor = some t ↔
      share m k side = t := by
  have hsupply := hm.supply
  have hlock : lockLpAmount = 100 := rfl
  have hfit : k * m.net side < 2 ^ 128 := by
    calc k * m.net side < 2 ^ 64 * 2 ^ 64 :=
          Nat.mul_lt_mul'' hk (hm.net_lt side)
      _ = 2 ^ 128 := by norm_num
  rw [ConstantProductCurve.tokenShare_floor]
  exact ⟨fun h => h.2.2, fun h => ⟨hfit, by omega, h⟩⟩

/-- Both shares, neither of them zero. -/
theorem shareAmounts_eq_ok (hm : Sound m) (hk : k < 2 ^ 64) {results : TradingTokenResult} :
    shareAmounts m.poolState m.nets k .floor = .ok results ↔
      (∀ side, share m k side ≠ 0) ∧ results = ⟨share m k .token0, share m k .token1⟩ := by
  have h0 := tokenShare_eq_some hm hk .token0 (t := results.token0Amount)
  have h1 := tokenShare_eq_some hm hk .token1 (t := results.token1Amount)
  simp only [shareAmounts, CurveCalculator.lpTokensToTradingTokens, bind_eq_ok, okOr_eq_ok,
    require_eq_ok, pure_eq_ok, ConstantProductCurve.lpTokensToTradingTokens_eq_some]
  constructor
  · intro h
    obtain ⟨_, ⟨hs0, hs1⟩, _, ⟨hne0, hne1⟩, rfl⟩ := h
    have heq0 := h0.mp hs0
    have heq1 := h1.mp hs1
    refine ⟨?_, by rw [heq0, heq1]⟩
    intro side
    cases side with
    | token0 => exact heq0 ▸ hne0
    | token1 => exact heq1 ▸ hne1
  · intro h
    obtain ⟨hne, rfl⟩ := h
    exact ⟨_, ⟨h0.mpr rfl, h1.mpr rfl⟩, (), ⟨hne .token0, hne .token1⟩, rfl⟩

/-- One side of the payout. -/
theorem netTransfer_share (hm : Sound m) (hmint : Documented (env.mint side))
    (hsupply : k ≤ m.lpMintSupply) :
    netTransfer (env.mint side) env.clock.epoch (min (m.net side) (share m k side)) =
      .ok (received m env k side, feeOf (env.mint side) env.clock.epoch (share m k side)) := by
  have hle := share_le_net hm hsupply side
  have hfee := getTransferFee_documented hmint env.clock.epoch (hle.trans_lt (hm.net_lt side))
  rw [Nat.min_eq_right hle]
  simp only [netTransfer, bind_eq_ok, unwrap_eq_ok, checkedSub_eq_some, pure_eq_ok]
  exact ⟨_, hfee, _, ⟨fee_le hmint _ _, rfl⟩, rfl⟩

/-- **The quote of a withdrawal**, where the LP tokens exist. -/
theorem quoteWithdraw_iff (hm : Sound m) (hmints : ∀ side, Documented (env.mint side))
    (hk : k < 2 ^ 64) (hsupply : k ≤ m.lpMintSupply) {min0 min1 held : Nat}
    {r : PerToken Nat × LpChangeEvent} :
    quoteWithdraw m.poolState m.vault env k min0 min1 held = .ok r ↔
      CanLeave m env k min0 min1 held ∧
        r = (⟨share m k .token0, share m k .token1⟩, withdrawn m env k) := by
  have hle0 := share_le_net hm hsupply .token0
  have hle1 := share_le_net hm hsupply .token1
  have hpaid0 := netTransfer_share hm (hmints .token0) hsupply
  have hpaid1 := netTransfer_share hm (hmints .token1) hsupply
  have hmin0 := Nat.min_eq_right hle0
  have hmin1 := Nat.min_eq_right hle1
  have htry0 : tryFrom 64 (share m k .token0) = some (share m k .token0) :=
    tryFrom_eq_some.mpr ⟨hle0.trans_lt (hm.net_lt .token0), rfl⟩
  have htry1 : tryFrom 64 (share m k .token1) = some (share m k .token1) :=
    tryFrom_eq_some.mpr ⟨hle1.trans_lt (hm.net_lt .token1), rfl⟩
  simp only [quoteWithdraw, bind_eq_ok, require_eq_ok, hm.netAmounts, Except.ok.injEq,
    unwrap_eq_ok, pure_eq_ok]
  constructor
  · intro h
    obtain ⟨_, hpos, _, hheld, _, hopen, _, rfl, results, hshares, _, hs0, ⟨_, _⟩, hf0, _, hs1,
      ⟨_, _⟩,
      hf1, _, hmin, rfl⟩ := h
    obtain ⟨hne, rfl⟩ := (shareAmounts_eq_ok hm hk).mp hshares
    rw [htry0, Option.some.injEq] at hs0
    rw [htry1, Option.some.injEq] at hs1
    subst hs0 hs1
    rw [show m.nets.token0 = m.net .token0 from rfl, hpaid0, Except.ok.injEq, Prod.mk.injEq] at hf0
    rw [show m.nets.token1 = m.net .token1 from rfl, hpaid1, Except.ok.injEq, Prod.mk.injEq] at hf1
    obtain ⟨rfl, rfl⟩ := hf0
    obtain ⟨rfl, rfl⟩ := hf1
    refine ⟨⟨hpos, hheld, hsupply, hopen, hne, hmin⟩, ?_⟩
    simp only [Market.nets, hmin0, hmin1, withdrawn]
  · intro h
    obtain ⟨hleave, rfl⟩ := h
    have hshares := (shareAmounts_eq_ok hm hk).mpr ⟨hleave.share_ne, rfl⟩
    refine ⟨(), hleave.pos, (), hleave.held, (), hleave.isOpen, _, rfl, _, hshares, _, htry0, _,
      hpaid0, _, htry1, _, hpaid1, (), hleave.minimum, ?_⟩
    simp only [Market.nets, hmin0, hmin1, withdrawn]

/-- **When a withdrawal succeeds**, and what it reports. -/
theorem withdraw_iff (hm : Sound m) (hmints : ∀ side, Documented (env.mint side))
    (hk : k < 2 ^ 64) (toVault : PerToken Bool) {min0 min1 held : Nat} {e : LpChangeEvent} :
    (∃ m', withdraw m env k min0 min1 held toVault = .ok (m', e)) ↔
      CanLeave m env k min0 min1 held ∧ e = withdrawn m env k := by
  simp only [withdraw_eq, bind_eq_ok, Prod.exists, tokenBurn_eq_ok, unwrap_eq_ok, pure_eq_ok,
    Prod.mk.injEq]
  constructor
  · intro h
    obtain ⟨_, _, _, hquote, _, -, _, ⟨-, hsupply, -⟩, _, -, _, -, -, rfl⟩ := h
    obtain ⟨hleave, heq⟩ := (quoteWithdraw_iff hm hmints hk hsupply).mp hquote
    exact ⟨hleave, congrArg Prod.snd heq⟩
  · intro h
    obtain ⟨hleave, rfl⟩ := h
    have hlp := hleave.supply
    have hquote := (quoteWithdraw_iff hm hmints hk hlp).mpr ⟨hleave, rfl⟩
    have hsupply := hm.supply
    have hlow : checkedSub m.poolState.lpSupply k = some (m.poolState.lpSupply - k) :=
      checkedSub_eq_some.mpr ⟨by omega, rfl⟩
    have hvault : ∀ side, share m k side ≤ m.vault.get side := fun side =>
      (share_le_net hm hlp side).trans (Nat.sub_le _ _)
    obtain ⟨vault0, hpay0⟩ := transferFromPoolVaultToUser_of_le (hvault .token0) toVault.token0
    obtain ⟨vault1, hpay1⟩ := transferFromPoolVaultToUser_of_le (hvault .token1) toVault.token1
    exact ⟨_, _, _, hquote, _, hlow, _, ⟨hleave.held, hlp, rfl⟩, vault0, hpay0, vault1, hpay1, rfl,
      rfl⟩

/-! ## What leaves a share alone -/

/-- Trades, and changes of what is open. -/
def disturbs : Op → Bool
  | .swapBaseInput .. => true
  | .swapBaseOutput .. => true
  | .updatePoolStatus .. => true
  | _ => false

/-- A share of the pool is worth no less of either token, and is as free to leave. -/
structure Kept (m m' : Market) : Prop where
  worth : ∀ side, WorthLe (m.net side) m.poolState.lpSupply (m'.net side) m'.poolState.lpSupply
  status : m'.poolState.status = m.poolState.status

theorem lpSupply_pos (hm : Sound m) : 0 < m.poolState.lpSupply := by
  have hsupply := hm.supply
  unfold lockLpAmount at hsupply
  omega

theorem Kept.trans {m'' : Market} (hm' : Sound m') (h : Kept m m') (h' : Kept m' m'') :
    Kept m m'' where
  worth side := (h.worth side).trans (lpSupply_pos hm') (h'.worth side)
  status := h'.status.trans h.status

/-- **No effect but a trade takes from a share.** -/
theorem effect_worth {op : Op} (hm : Sound m) (hop : disturbs op = false) (h : Effect m op m')
    (side : TokenSide) :
    WorthLe (m.net side) m.poolState.lpSupply (m'.net side) m'.poolState.lpSupply := by
  have hm' := effect_sound hm h
  have hcov := hm.net_add_owed side
  have hcov' := hm'.net_add_owed side
  cases h with
  | updateAmmConfig _ => exact .refl _ _
  | updatePoolStatus => cases hop
  | updatePoolOracle _ _ _ => exact .refl _ _
  | setOracleKeeper => exact .refl _ _
  | collect amount toVault _ h =>
    have hvault := h.vault side
    have howed := h.owed side
    rw [h.supply]
    refine .of_gift ?_
    split at hvault <;> omega
  | @deposit k _ _ _ _ h =>
    have hvault := h.vault side
    have howed := h.owed side
    rw [h.supply]
    refine Lib.Shares.Book.join_reserve (k := k) (lpSupply_pos hm) ?_
    omega
  | @withdraw k _ _ _ _ _ h =>
    have hvault := h.vault side
    have howed := h.owed side
    refine Lib.Shares.Book.leave_reserve (k := k) h.supply ?_
    generalize k * m.net side / m.poolState.lpSupply = amount at hvault ⊢
    omega
  | swapBaseInput _ _ => cases hop
  | swapBaseOutput _ _ => cases hop
  | @donate given _ _ credited _ =>
    refine .of_gift ?_
    simp only [Market.net, Market.owed, PerToken.get_set]
    split
    · next hside =>
      rw [hside]
      omega
    · exact le_rfl
  | burnLp _ => exact .refl _ _

theorem write_status {op : Op} (hop : disturbs op = false) (h : Write m op m') :
    m'.poolState.status = m.poolState.status := by
  cases h with
  | status => cases hop
  | plain lpSupply epoch hconfig hstate => rw [hstate]
  | _ => rfl

/-- **Nor does a run without one.** -/
theorem run_kept (hm : Sound m) (calls : List Call)
    (hcalls : ∀ call ∈ calls, disturbs call.op = false) : Kept m (replay Market.step m calls) := by
  refine replay_related (I := Sound) (R := Kept) (fun _ _ _ _ hs h => step_sound hs h) ?_ ?_ ?_
    calls hm hcalls
  · exact fun s _ => ⟨fun _ => .refl _ _, rfl⟩
  · exact fun _ _ _ _ hs _ => .trans hs
  · intro s call s' event hs hop h
    exact ⟨effect_worth hs hop (step_effect hs h), write_status hop (step_write h)⟩

/-- A share of a pool that is kept is no smaller, and neither is what is received of it. -/
theorem Kept.received (h : Kept m m') (hm : Sound m) (hm' : Sound m')
    (hmint : Documented (env.mint side)) (k : Nat) :
    share m k side ≤ share m' k side ∧ received m env k side ≤ received m' env k side := by
  have hshare : share m k side ≤ share m' k side :=
    redeem_mono (lpSupply_pos hm) (lpSupply_pos hm') (h.worth side) k
  exact ⟨hshare, received_mono hmint env.clock.epoch hshare⟩

theorem Kept.canLeave {min0 min1 held : Nat} (h : Kept m m') (hm : Sound m) (hm' : Sound m')
    (hmints : ∀ side, Documented (env.mint side)) (hsupply : k ≤ m'.lpMintSupply)
    (hleave : CanLeave m env k min0 min1 held) : CanLeave m' env k min0 min1 held where
  pos := hleave.pos
  held := hleave.held
  supply := hsupply
  isOpen := by
    have hopen := hleave.isOpen
    simp only [PoolState.getStatusByBit] at hopen ⊢
    rwa [h.status]
  share_ne side := by
    have hne := hleave.share_ne side
    have hle := (h.received hm hm' (hmints side) k).1
    omega
  minimum := by
    obtain ⟨hmin0, hmin1⟩ := hleave.minimum
    exact ⟨hmin0.trans (h.received hm hm' (hmints .token0) k).2,
      hmin1.trans (h.received hm hm' (hmints .token1) k).2⟩

/-! ## How many can leave -/

/-- The LP tokens a call takes out of existence. -/
def leaving : Op → Nat
  | .withdraw lpTokenAmount .. => lpTokenAmount
  | .burnLp amount _ => amount
  | _ => 0

theorem effect_leaving {op : Op} (h : Effect m op m') :
    m.lpMintSupply ≤ m'.lpMintSupply + leaving op := by
  cases h with
  | collect _ _ _ h => rw [h.mint]; exact Nat.le_add_right _ _
  | deposit h => rw [h.mint]; omega
  | withdraw h => exact h.mint.ge
  | swapBaseInput _ hs => exact hs.mint.ge
  | swapBaseOutput _ hs => exact hs.mint.ge
  | burnLp hle =>
    dsimp only [leaving]
    omega
  | _ => exact Nat.le_add_right _ _

theorem run_leaving (hm : Sound m) (calls : List Call) :
    m.lpMintSupply ≤ (replay Market.step m calls).lpMintSupply +
      (calls.map fun call => leaving call.op).sum := by
  induction calls generalizing m with
  | nil => exact Nat.le_add_right _ _
  | cons call calls ih =>
    rw [replay_cons, List.map_cons, List.sum_cons]
    rcases next_cases Market.step m call with ⟨event, h⟩ | hsame
    · have hone := effect_leaving (step_effect hm h)
      have hrest := ih (step_sound hm h)
      omega
    · rw [hsame]
      have hrest := ih hm
      omega

/-- **Everyone can leave, in any order.** In a run without trades that takes out no more LP
tokens than there are, every withdrawal that could have been made first succeeds in its
turn, and pays at least what it would have paid first. -/
theorem everyone_leaves (m : Market) (hm : m.Reachable) (before after : List Call) (env : Env)
    (k min0 min1 held : Nat) (toVault : PerToken Bool) (hmints : ∀ side, Documented (env.mint side))
    (hk : k < 2 ^ 64) (hcalls : ∀ call ∈ before, disturbs call.op = false)
    (htotal : ((before ++ ⟨env, .withdraw k min0 min1 held toVault⟩ :: after).map
      fun call => leaving call.op).sum ≤ m.lpMintSupply)
    (hleave : CanLeave m env k min0 min1 held) :
    ∃ m' e, (replay Market.step m before).step ⟨env, .withdraw k min0 min1 held toVault⟩ =
        .ok (m', .lpChange e) ∧
      received m env k .token0 ≤ e.token0Amount ∧ received m env k .token1 ≤ e.token1Amount := by
  have hsound := reachable_sound hm
  have hsound' := reachable_sound (hm.replay before)
  have hkept := run_kept hsound before hcalls
  have hrun := run_leaving hsound before
  rw [List.map_append, List.map_cons, List.sum_append, List.sum_cons] at htotal
  have hsupply : k ≤ (replay Market.step m before).lpMintSupply := by
    change _ + (k + _) ≤ _ at htotal
    omega
  have hleave' := hkept.canLeave hsound hsound' hmints hsupply hleave
  obtain ⟨m', h⟩ := (withdraw_iff hsound' hmints hk toVault).mpr ⟨hleave', rfl⟩
  refine ⟨m', withdrawn (replay Market.step m before) env k, ?_,
    (hkept.received hsound hsound' (hmints .token0) k).2,
    (hkept.received hsound hsound' (hmints .token1) k).2⟩
  simp only [Market.step, h, bind_eq_ok, pure_eq_ok, Prod.exists]
  exact ⟨_, _, rfl, rfl⟩

/-- Two LPs leave the pool of the example, after its fund was asked for its fees. -/
theorem everyone_leaves_examplePool : ∃ m' e,
    (replay Market.step examplePool
      [⟨exampleEnv 1010, .withdraw 400000000 0 0 400000000 ⟨false, false⟩⟩,
      ⟨exampleEnv 1020, .collectFundFee adminId ⟨5, 5⟩ ⟨false, false⟩⟩]).step
        ⟨exampleEnv 1030, .withdraw 500000000 500000000 500000000 500000000 ⟨false, false⟩⟩ =
        .ok (m', .lpChange e) ∧
      received examplePool (exampleEnv 1030) 500000000 .token0 ≤ e.token0Amount := by
  have hleave : CanLeave examplePool (exampleEnv 1030) 500000000 500000000 500000000 500000000 := by
    refine ⟨by decide, by decide, by decide, by decide, ?_, by decide⟩
    intro side
    cases side <;> decide
  obtain ⟨m', e, h, h0, -⟩ := everyone_leaves examplePool examplePool_reachable
    [⟨exampleEnv 1010, .withdraw 400000000 0 0 400000000 ⟨false, false⟩⟩,
      ⟨exampleEnv 1020, .collectFundFee adminId ⟨5, 5⟩ ⟨false, false⟩⟩] [] (exampleEnv 1030)
    500000000 500000000 500000000 500000000 ⟨false, false⟩ exampleEnv_documented (by decide)
    (by simp [disturbs]) (by decide) hleave
  exact ⟨m', e, h, h0⟩

/-- **When an LP can withdraw.** From every pool that calls can lead to a withdrawal succeeds
exactly when withdrawing is open, the tokens are held and exist, neither share is zero and
both cover their minimum; and it reports what arrives of the two shares. -/
theorem leaves_iff (m : Market) (hm : m.Reachable) (env : Env) (k min0 min1 held : Nat)
    (toVault : PerToken Bool) (hmints : ∀ side, Documented (env.mint side)) (hk : k < 2 ^ 64)
    (e : LpChangeEvent) :
    (∃ m', m.step ⟨env, .withdraw k min0 min1 held toVault⟩ = .ok (m', .lpChange e)) ↔
      CanLeave m env k min0 min1 held ∧ e = withdrawn m env k := by
  rw [← withdraw_iff (reachable_sound hm) hmints hk toVault]
  simp only [Market.step, bind_eq_ok, pure_eq_ok, Prod.exists, Prod.mk.injEq, Event.lpChange.injEq]
  constructor
  · intro h
    obtain ⟨m', _, _, h, rfl, rfl⟩ := h
    exact ⟨_, h⟩
  · intro h
    obtain ⟨m', h⟩ := h
    exact ⟨m', m', e, h, rfl, rfl⟩

/-- Two per cent of a thousand stay with the token program. -/
theorem leaves_iff_exampleFeeEnv :
    (∃ m', examplePool.step ⟨exampleFeeEnv, .withdraw 1000 980 980 1000 ⟨false, false⟩⟩ =
      .ok (m', .lpChange (withdrawn examplePool exampleFeeEnv 1000))) ∧
    ∀ m' e, examplePool.step ⟨exampleFeeEnv, .withdraw 1000 981 980 1000 ⟨false, false⟩⟩ ≠
      .ok (m', .lpChange e) := by
  have hmints : ∀ side, Documented (exampleFeeEnv.mint side) := by
    intro side
    cases side <;> exact documented_exampleFeeMint
  constructor
  · refine (leaves_iff examplePool examplePool_reachable exampleFeeEnv 1000 980 980 1000
      ⟨false, false⟩ hmints (by decide) _).mpr ⟨?_, rfl⟩
    refine ⟨by decide, by decide, by decide, by decide, ?_, by decide⟩
    intro side
    cases side <;> decide
  · intro m' e h
    obtain ⟨hleave, -⟩ := (leaves_iff examplePool examplePool_reachable exampleFeeEnv 1000 981 980
      1000 ⟨false, false⟩ hmints (by decide) e).mp ⟨m', h⟩
    exact absurd hleave.minimum (by decide)

/-! ## In and out again -/

/-- What a deposit reports is what it costs, rounded up. -/
theorem quoteDeposit_amounts (hm : Sound m) {max0 max1 : Nat} {amount : PerToken Nat}
    {e : LpChangeEvent}
    (h : quoteDeposit m.poolState m.vault env k max0 max1 = .ok (amount, e)) :
    e.token0Amount = ceilDiv (k * m.net .token0) m.poolState.lpSupply ∧
      e.token1Amount = ceilDiv (k * m.net .token1) m.poolState.lpSupply := by
  simp only [quoteDeposit, shareAmounts, CurveCalculator.lpTokensToTradingTokens, bind_eq_ok,
    require_eq_ok, okOr_eq_ok, unwrap_eq_ok, tryFrom_eq_some, pure_eq_ok, Prod.exists,
    Prod.mk.injEq, hm.netAmounts, Except.ok.injEq,
    ConstantProductCurve.lpTokensToTradingTokens_eq_some] at h
  obtain ⟨_, -, _, -, _, rfl, results, ⟨_, ⟨h0, h1⟩, _, ⟨hne0, hne1⟩, rfl⟩, _, ⟨-, rfl⟩, _, _, -, _,
    ⟨-, rfl⟩, _, _, -, _, -, -, rfl⟩ := h
  exact ⟨(ConstantProductCurve.tokenShare_ceiling h0 hne0).2,
    (ConstantProductCurve.tokenShare_ceiling h1 hne1).2⟩

/-- What a withdrawal reports, with the fees of the transfers, is the share. -/
theorem quoteWithdraw_amounts (hm : Sound m) (hk : k < 2 ^ 64) (hsupply : k ≤ m.lpMintSupply)
    {min0 min1 held : Nat} {amount : PerToken Nat} {e : LpChangeEvent}
    (h : quoteWithdraw m.poolState m.vault env k min0 min1 held = .ok (amount, e)) :
    e.token0Amount + e.token0TransferFee = share m k .token0 ∧
      e.token1Amount + e.token1TransferFee = share m k .token1 := by
  have hle0 := share_le_net hm hsupply .token0
  have hle1 := share_le_net hm hsupply .token1
  simp only [quoteWithdraw, shareAmounts, netTransfer, CurveCalculator.lpTokensToTradingTokens,
    bind_eq_ok, require_eq_ok, okOr_eq_ok, unwrap_eq_ok, tryFrom_eq_some, checkedSub_eq_some,
    pure_eq_ok, Prod.exists, Prod.mk.injEq, hm.netAmounts, Except.ok.injEq,
    ConstantProductCurve.lpTokensToTradingTokens_eq_some] at h
  obtain ⟨_, -, _, -, _, -, _, rfl, results, ⟨_, ⟨h0, h1⟩, _, -, rfl⟩, share0, ⟨-, hshare0⟩,
    receive0, fee0, ⟨_, -, _, ⟨hfee0, hreceive0⟩, rfl, rfl⟩, share1, ⟨-, hshare1⟩, receive1, fee1,
    ⟨_, -, _, ⟨hfee1, hreceive1⟩, rfl, rfl⟩, _, -, -, rfl⟩ := h
  have hs0 := (tokenShare_eq_some hm hk .token0).mp h0
  have hs1 := (tokenShare_eq_some hm hk .token1).mp h1
  rw [show m.nets.token0 = m.net .token0 from rfl, ← hshare0, ← hs0,
    Nat.min_eq_right hle0] at hfee0 hreceive0
  rw [show m.nets.token1 = m.net .token1 from rfl, ← hshare1, ← hs1,
    Nat.min_eq_right hle1] at hfee1 hreceive1
  dsimp only
  omega

/-- **One deposit, and its share right after it.** -/
theorem deposit_share (hm : Sound m) (h : DepositEffect m m' k) (hm' : Sound m')
    (side : TokenSide) :
    share m' k side ≤ ceilDiv (k * m.net side) m.poolState.lpSupply ∧
      ceilDiv (k * m.net side) m.poolState.lpSupply ≤ share m' k side + 1 := by
  have hcov := hm.net_add_owed side
  have hcov' := hm'.net_add_owed side
  have hvault := h.vault side
  have howed := h.owed side
  have hnet : m'.net side = m.net side + ceilDiv (k * m.net side) m.poolState.lpSupply := by omega
  unfold share
  rw [hnet, h.supply]
  exact redeem_joined (lpSupply_pos hm)

/-- **In and out again.** Whatever but trades happens between, LP tokens that were bought
are redeemed for at least what they cost less one unit of each token; right away they are
not redeemed for more. Fees of the token library come on top of both. -/
theorem deposit_then_withdraw (m : Market) (hm : m.Reachable) (env env' : Env)
    (k max0 max1 min0 min1 held : Nat) (ownerAmount : PerToken Nat) (toVault : PerToken Bool)
    (calls : List Call) (hcalls : ∀ call ∈ calls, disturbs call.op = false) (m' m'' : Market)
    (e e' : LpChangeEvent)
    (hin : m.step ⟨env, .deposit k max0 max1 ownerAmount⟩ = .ok (m', .lpChange e))
    (hout : (replay Market.step m' calls).step ⟨env', .withdraw k min0 min1 held toVault⟩ =
      .ok (m'', .lpChange e')) :
    (e.token0Amount ≤ e'.token0Amount + e'.token0TransferFee + 1 ∧
      e.token1Amount ≤ e'.token1Amount + e'.token1TransferFee + 1) ∧
    (calls = [] → e'.token0Amount + e'.token0TransferFee ≤ e.token0Amount ∧
      e'.token1Amount + e'.token1TransferFee ≤ e.token1Amount) := by
  have hsound := reachable_sound hm
  have hsound' := step_sound hsound hin
  simp only [Market.step, bind_eq_ok, pure_eq_ok, Prod.exists, Prod.mk.injEq,
    Event.lpChange.injEq] at hin hout
  obtain ⟨m', e, hin, rfl, rfl⟩ := hin
  obtain ⟨m'', e', hout, rfl, rfl⟩ := hout
  have heffect := deposit_effect hsound hin
  simp only [deposit_eq, withdraw_eq, bind_eq_ok, Prod.exists, unwrap_eq_ok, checkedAdd_eq_some,
    tokenBurn_eq_ok, pure_eq_ok, Prod.mk.injEq] at hin hout
  obtain ⟨_, _, hquote, _, -, _, -, _, ⟨hk, -⟩, _, -, -, rfl⟩ := hin
  obtain ⟨_, _, hquote', _, -, _, ⟨-, hsupply, -⟩, _, -, _, -, -, rfl⟩ := hout
  have hk64 : k < 2 ^ 64 := (Nat.le_add_left _ _).trans_lt hk
  obtain ⟨hcost0, hcost1⟩ := quoteDeposit_amounts hsound hquote
  have hkept := run_kept hsound' calls hcalls
  have hrun : Sound (replay Market.step m' calls) :=
    replay_invariant (fun _ _ _ _ hs h => step_sound hs h) calls hsound'
  obtain ⟨hpaid0, hpaid1⟩ := quoteWithdraw_amounts hrun hk64 hsupply hquote'
  have hmono : ∀ side, share m' k side ≤ share (replay Market.step m' calls) k side := fun side =>
    redeem_mono (lpSupply_pos hsound') (lpSupply_pos hrun) (hkept.worth side) k
  obtain ⟨hle0, hge0⟩ := deposit_share hsound heffect hsound' .token0
  obtain ⟨hle1, hge1⟩ := deposit_share hsound heffect hsound' .token1
  rw [hpaid0, hpaid1, hcost0, hcost1]
  refine ⟨⟨?_, ?_⟩, ?_⟩
  · exact hge0.trans (Nat.add_le_add_right (hmono .token0) 1)
  · exact hge1.trans (Nat.add_le_add_right (hmono .token1) 1)
  · rintro rfl
    exact ⟨hle0, hle1⟩

/-- A thousand LP tokens, bought and redeemed. -/
theorem deposit_then_withdraw_examplePool : ∃ m' m'' e e',
    examplePool.step ⟨exampleEnv 1010, .deposit 1000 2000 2000 ⟨2000, 2000⟩⟩ =
      .ok (m', .lpChange e) ∧
    m'.step ⟨exampleEnv 1030, .withdraw 1000 900 900 1000 ⟨false, false⟩⟩ =
      .ok (m'', .lpChange e') ∧
    e.token0Amount ≤ e'.token0Amount + e'.token0TransferFee + 1 ∧
    e'.token0Amount + e'.token0TransferFee ≤ e.token0Amount := by
  obtain ⟨⟨m'', e'⟩, h⟩ := exists_of_isOk (show (do
      let joined ← deposit examplePool (exampleEnv 1010) 1000 2000 2000 ⟨2000, 2000⟩
      withdraw joined.1 (exampleEnv 1030) 1000 900 900 1000 ⟨false, false⟩).toOption.isSome =
        true by decide +kernel)
  simp only [bind_eq_ok, Prod.exists] at h
  obtain ⟨m', e, hdeposit, hwithdraw⟩ := h
  have hin : examplePool.step ⟨exampleEnv 1010, .deposit 1000 2000 2000 ⟨2000, 2000⟩⟩ =
      .ok (m', .lpChange e) := by
    simp only [Market.step, hdeposit, ok_bind]
    rfl
  have hout : m'.step ⟨exampleEnv 1030, .withdraw 1000 900 900 1000 ⟨false, false⟩⟩ =
      .ok (m'', .lpChange e') := by
    simp only [Market.step, hwithdraw, ok_bind]
    rfl
  obtain ⟨⟨hge, -⟩, hle⟩ := deposit_then_withdraw examplePool examplePool_reachable
    (exampleEnv 1010) (exampleEnv 1030) 1000 2000 2000 900 900 1000 ⟨2000, 2000⟩
    ⟨false, false⟩ [] (by simp) m' m'' e e' hin hout
  exact ⟨m', m'', e, e', hin, hout, hge, (hle rfl).1⟩

end NomadAmm.Soundness.Exit

import NomadAmm.Soundness.Representation
import NomadAmm.Soundness.Writes

/-! One call on the accounts of a pool is one step of its market. Each instruction is
compared once: the market makes the same step, and the accounts frame it. -/

namespace NomadAmm.Soundness.PoolCalls

open Lib.Checked Lib.Transition Exec Run World Instructions
open Soundness.Frames Soundness.Representation Soundness.Ledger Soundness.Writes

variable {p : Addresses} {w w' : World} {clock : Clock} {key : Pubkey} {keys : PoolKeys}
  {m m' : Market}

/-- Whose tokens a call on a pool may take: the signer's, and the pool's. -/
def takes (w : World) (signer : Pubkey) (keys : PoolKeys) (k : Pubkey) : Prop :=
  Spends w signer k ∨ ∃ side, k = keys.vault.get side

/-- The accounts after a call on a pool that left its market at `m'`. -/
structure Served (p : Addresses) (w w' : World) (signer key : Pubkey) (keys : PoolKeys)
    (m' : Market) : Prop where
  holds : Holds p w' key keys m'
  frame : Frame (writes key keys) (takes w signer keys) w w'

theorem putState_frame {written debited : Pubkey → Prop} {account : Account}
    (h : ∀ t, w.account key ≠ some (.token t)) (hplain : account.ofTokenProgram = false)
    (hwritten : written key) : Frame written debited w (w.put key account) := by
  refine (put_frame h (.of_program hplain)).mono ?_ fun _ => id
  rintro k rfl
  exact hwritten

/-- A call that writes the state of the pool and nothing else. -/
theorem putState_served (h : Holds p w key keys m) (signer : Pubkey) (s : PoolState) :
    Served p w (w.put key (.poolState keys s)) signer key keys { m with poolState := s } where
  holds := by
    refine ⟨put_self, ?_, fun side => (h.vault side).put h.not_token, h.lpMint.put h.key_ne_lpMint,
      ?_, h.mints_ne, h.lpMint_ne⟩
    · rw [put_of_ne fun heq => h.config_ne_written (.inl heq)]
      exact h.config
    · rw [put_of_ne h.key_ne_observation]
      exact h.observation
  frame := putState_frame h.not_token rfl (.inl rfl)

/-! ## Administration -/

theorem updatePoolStatus_served {a : PoolAdmin p} {status : Nat} (mints : PerToken Mint)
    (hm : Holds p w a.poolState keys m) (h : w.updatePoolStatus clock a status = .ok w') :
    ∃ m', Instructions.updatePoolStatus m ⟨clock, mints⟩ a.authority.key status = .ok m' ∧
      Served p w w' a.authority.key a.poolState keys m' := by
  simp only [World.updatePoolStatus, Run.bind_eq_ok, Prod.exists, poolState_eq_ok, hm.pool,
    check_eq_ok, handler_eq_ok, Exec.require_eq_ok, Run.pure_eq_ok, Option.some.injEq,
    Account.poolState.injEq] at h
  obtain ⟨_, _, ⟨rfl, rfl⟩, _, hadmin, _, hle, rfl⟩ := h
  refine ⟨_, ?_, putState_served hm _ _⟩
  simp only [Instructions.updatePoolStatus, Exec.bind_eq_ok, Exec.require_eq_ok, Exec.pure_eq_ok]
  exact ⟨(), hadmin, (), hle, trivial⟩

theorem updatePoolOracle_served {a : UpdatePoolOracle p} {bid ask exponent : Int} {fee : Nat}
    {event : OracleUpdated} (mints : PerToken Mint) (hm : Holds p w a.poolState keys m)
    (h : w.updatePoolOracle clock a bid ask exponent fee = .ok (w', event)) :
    ∃ m', Instructions.updatePoolOracle m ⟨clock, mints⟩ a.oracleKeeper.key bid ask exponent fee =
        .ok (m', event) ∧
      Served p w w' a.oracleKeeper.key a.poolState keys m' := by
  simp only [World.updatePoolOracle, Run.bind_eq_ok, Prod.exists, poolState_eq_ok, hm.pool,
    handler_eq_ok, Exec.require_eq_ok, Run.pure_eq_ok, Option.some.injEq,
    Account.poolState.injEq, Prod.mk.injEq] at h
  obtain ⟨_, _, ⟨rfl, rfl⟩, _, hkeeper, _, hbid, _, hask, _, hfee, rfl, rfl⟩ := h
  refine ⟨_, ?_, putState_served hm _ _⟩
  simp only [Instructions.updatePoolOracle, Exec.bind_eq_ok, Exec.require_eq_ok, Exec.pure_eq_ok]
  exact ⟨(), hkeeper, (), hbid, (), hask, (), hfee, trivial⟩

theorem setOracleKeeper_served {a : PoolAdmin p} {newKeeper : Pubkey}
    (hm : Holds p w a.poolState keys m) (h : w.setOracleKeeper a newKeeper = .ok w') :
    ∃ m', Instructions.setOracleKeeper m a.authority.key newKeeper = .ok m' ∧
      Served p w w' a.authority.key a.poolState keys m' := by
  simp only [World.setOracleKeeper, Run.bind_eq_ok, Prod.exists, poolState_eq_ok, hm.pool,
    check_eq_ok, Run.pure_eq_ok, Option.some.injEq, Account.poolState.injEq] at h
  obtain ⟨_, _, ⟨rfl, rfl⟩, _, hadmin, rfl⟩ := h
  refine ⟨_, ?_, putState_served hm _ _⟩
  simp only [Instructions.setOracleKeeper, Exec.bind_eq_ok, Exec.require_eq_ok, Exec.pure_eq_ok]
  exact ⟨(), hadmin, trivial⟩

/-! ## The vaults of an instruction -/

variable {tokenVault mint recipient : PerToken Pubkey} {held amount : PerToken Nat}

/-- Paying out of both vaults is paying out of the vaults of the market. -/
theorem payOut_vaults (hv : TwoVaults p w tokenVault mint held)
    (h : w.payOut p clock tokenVault mint recipient amount = .ok w') :
    ∃ held', payFees held amount ⟨decide (recipient.token0 = tokenVault.token0),
        decide (recipient.token1 = tokenVault.token1)⟩ = .ok held' ∧
      TwoVaults p w' tokenVault mint held' := by
  simp only [World.payOut, Run.bind_eq_ok] at h
  obtain ⟨w₁, h0, h1⟩ := h
  obtain ⟨held0, hpay0, hv0⟩ := payOut_vault (hv.vault .token0) h0
  have hv1 := payOut_other (hv.vault .token1) hv.mints_ne.symm h0
  obtain ⟨held1, hpay1, hv1'⟩ := payOut_vault hv1 h1
  have hv0' := payOut_other hv0 hv.mints_ne h1
  refine ⟨⟨held0, held1⟩, ?_, ?_, hv.mints_ne⟩
  · simp only [payFees, Exec.bind_eq_ok, Exec.pure_eq_ok]
    exact ⟨held0, hpay0, held1, hpay1, rfl⟩
  · intro side
    cases side with
    | token0 => exact hv0'
    | token1 => exact hv1'

theorem payOut_frame {written : Pubkey → Prop}
    (h : w.payOut p clock tokenVault mint recipient amount = .ok w') :
    Frame written (fun k => ∃ side, k = tokenVault.get side) w w' := by
  simp only [World.payOut, Run.bind_eq_ok] at h
  obtain ⟨w₁, h0, h1⟩ := h
  refine ((transferFromPoolVaultToUser_frame h0).mono (fun _ => id) ?_).trans
    ((transferFromPoolVaultToUser_frame h1).mono (fun _ => id) ?_)
  · rintro k rfl
    exact ⟨.token0, rfl⟩
  · rintro k rfl
    exact ⟨.token1, rfl⟩

/-! ## Collecting fees -/

/-- Paying out of the vaults of a pool. -/
theorem payOut_served (signer : Pubkey) (hm : Holds p w key keys m)
    (h : w.payOut p clock keys.vault keys.tokenMint recipient amount = .ok w') :
    ∃ held', payFees m.vault amount ⟨decide (recipient.token0 = keys.vault.token0),
        decide (recipient.token1 = keys.vault.token1)⟩ = .ok held' ∧
      Served p w w' signer key keys { m with vault := held' } := by
  obtain ⟨held', hpay, hv⟩ := payOut_vaults hm.twoVaults h
  have hf : Frame (fun _ => False) (fun k => ∃ side, k = keys.vault.get side) w w' :=
    payOut_frame h
  exact ⟨held', hpay, hm.revault hf id id id id hv, hf.mono (fun _ => False.elim) fun _ => .inr⟩

/-- What serves a call in two parts, the second of which takes no more of anyone. -/
theorem Served.trans {w₁ : World} {signer : Pubkey} {m₁ : Market}
    (h : Served p w w₁ signer key keys m₁) (h' : Served p w₁ w' signer key keys m')
    (hspend : ∀ k, Spends w₁ signer k → Spends w signer k) :
    Served p w w' signer key keys m' where
  holds := h'.holds
  frame := by
    refine h.frame.trans (h'.frame.mono (fun _ => id) ?_)
    intro k htakes
    exact htakes.imp (hspend k) id

/-- A state written over a pool lets nobody spend. -/
theorem spends_of_put {signer : Pubkey} {keys' : PoolKeys} {s : PoolState} {k : Pubkey}
    (hold : ∀ t, w.account key ≠ some (.token t))
    (h : Spends (w.put key (.poolState keys' s)) signer k) : Spends w signer k := by
  have hf : Frame (· = key) (fun _ => False) w (w.put key (.poolState keys' s)) :=
    put_frame hold (.of_program rfl)
  obtain ⟨t, ht, hmay⟩ := h
  have hne : k ≠ key := by
    rintro rfl
    rw [put_self] at ht
    cases ht
  have ht' := ht
  rw [put_of_ne hne] at ht'
  exact Spends.of_frame hf ⟨t, ht, hmay⟩ ht'

theorem collectFee_served {a : CollectFee p} {feeOwner : AmmConfig → Pubkey}
    {fees : PoolState → PerToken Nat} {write : PoolState → PerToken Nat → PoolState}
    {requested : PerToken Nat} (mints : PerToken Mint) (hm : Holds p w a.poolState keys m)
    (h : w.collectFee clock a feeOwner fees write requested = .ok w') :
    ∃ toVault m', Instructions.collectFee m ⟨clock, mints⟩ (feeOwner m.ammConfig) a.owner.key
        (fees m.poolState) requested write toVault = .ok m' ∧
      Served p w w' a.owner.key a.poolState keys m' := by
  simp only [World.collectFee, Run.bind_eq_ok, Prod.exists, poolState_eq_ok, hm.pool,
    ammConfig_eq_ok, token_eq_ok, check_eq_ok, handler_eq_ok, Exec.require_eq_ok,
    Option.some.injEq, Account.poolState.injEq] at h
  obtain ⟨_, _, ⟨rfl, rfl⟩, c, hc, _, _, hvaults, _, _, _, _, _, howner, _, hconfig, lowered,
    hlowered, hpay⟩ := h
  obtain ⟨hvault, hmint, -⟩ := hm.vaults_eq hvaults
  rw [hconfig, hm.config, Option.some.injEq, Account.ammConfig.injEq] at hc
  subst hc
  rw [hvault, hmint] at hpay
  have hput := putState_served hm a.owner.key
    { write m.poolState lowered with recentEpoch := clock.epoch }
  obtain ⟨held', hfees, hserved⟩ := payOut_served a.owner.key hput.holds hpay
  have hcollect : Instructions.collectFee m ⟨clock, mints⟩ (feeOwner m.ammConfig) a.owner.key
      (fees m.poolState) requested write
      ⟨decide (a.recipientToken.token0 = keys.vault.token0),
        decide (a.recipientToken.token1 = keys.vault.token1)⟩ = .ok { m with
          poolState := { write m.poolState lowered with recentEpoch := clock.epoch }
          vault := held' } := by
    simp only [Instructions.collectFee, Exec.bind_eq_ok, Exec.require_eq_ok, Exec.pure_eq_ok]
    exact ⟨(), howner, lowered, hlowered, held', hfees, rfl⟩
  exact ⟨_, _, hcollect, hput.trans hserved fun _ => spends_of_put hm.not_token⟩

theorem collectCreatorFee_served {a : CollectCreatorFee p} (mints : PerToken Mint)
    (hm : Holds p w a.poolState keys m) (h : w.collectCreatorFee clock a = .ok w') :
    ∃ m', Instructions.collectCreatorFee m ⟨clock, mints⟩ a.creator.key = .ok m' ∧
      Served p w w' a.creator.key a.poolState keys m' := by
  simp only [World.collectCreatorFee, Run.bind_eq_ok, Prod.exists, poolState_eq_ok, hm.pool,
    ammConfig_eq_ok, check_eq_ok, handler_eq_ok, Exec.require_eq_ok, Run.pure_eq_ok,
    Option.some.injEq, Account.poolState.injEq] at h
  obtain ⟨_, _, ⟨rfl, rfl⟩, _, _, vault, mint, hvaults, _, hcreator, _, _, w₁, h1, w₂, h2, _, hne,
    w₃, hpay, rfl⟩ := h
  obtain ⟨hvault, hmint, -⟩ := hm.vaults_eq hvaults
  obtain ⟨hext1, ⟨t0, ht0, howner0⟩, hf1⟩ := initAssociated_spec h1
  obtain ⟨hext2, ⟨t1, ht1, howner1⟩, hf2⟩ := initAssociated_spec h2
  have hm₂ : Holds p w₂ a.poolState keys m := (hm.extend hext1).extend hext2
  rw [hvault, hmint] at hpay
  obtain ⟨held', hfees, hserved⟩ := payOut_served a.creator.key hm₂ hpay
  -- the accounts paid to are the creator's, who signs and so is not the authority
  have hne0 := (hm₂.vault .token0).ne_of_owner (hext2 _ _ ht0) (howner0 ▸ a.creator.key_ne)
  have hne1 := (hm₂.vault .token1).ne_of_owner ht1 (howner1 ▸ a.creator.key_ne)
  have hput := putState_served hserved.holds a.creator.key
    { m.poolState with creatorFees := ⟨0, 0⟩, recentEpoch := clock.epoch }
  refine ⟨_, ?_, hput.holds, ?_⟩
  · simp only [Instructions.collectCreatorFee, Exec.bind_eq_ok, Exec.require_eq_ok,
      Exec.pure_eq_ok]
    refine ⟨(), hcreator, (), hne, held', ?_, rfl⟩
    rw [← hfees]
    congr 2
    · exact (decide_eq_false hne0.symm).symm
    · exact (decide_eq_false hne1.symm).symm
  · have hpaid : Frame (writes a.poolState keys) (takes w a.creator.key keys) w₂ w₃ :=
      (payOut_frame hpay).mono (fun _ => id) fun _ => .inr
    exact (((hf1 _ _).trans (hf2 _ _)).trans hpaid).trans
      (putState_frame hserved.holds.not_token rfl (.inl rfl))

/-! ## Liquidity -/

/-- The last write of a call: the state of the pool, after its other accounts were
settled. -/
theorem settle_served {w₁ : World} {signer supply : Nat} {o : ObservationState}
    (hm : Holds p w key keys m)
    (hf : Frame (fun k => k = keys.lpMint ∨ k = keys.observationKey) (takes w signer keys) w w₁)
    (hv : TwoVaults p w₁ keys.vault keys.tokenMint held) (hlp : IsLpMint p w₁ keys.lpMint supply)
    (hobs : w₁.account keys.observationKey = some (.observationState o)) (s : PoolState) :
    Served p w (w₁.put key (.poolState keys s)) signer key keys
      { m with poolState := s, vault := held, lpMintSupply := supply, observationState := o } := by
  have hkey : ¬(key = keys.lpMint ∨ key = keys.observationKey) := by
    rintro (heq | heq)
    · exact hm.key_ne_lpMint heq.symm
    · exact hm.key_ne_observation heq.symm
  have hconfig : ¬(keys.ammConfig = keys.lpMint ∨ keys.ammConfig = keys.observationKey) :=
    fun h => hm.config_ne_written (.inr h)
  have hpool : w₁.account key = some (.poolState keys m.poolState) :=
    hf.kept _ _ hm.pool (by simp) hkey
  have hnot : ∀ t, w₁.account key ≠ some (.token t) := by
    intro t ht
    rw [hpool] at ht
    cases ht
  refine ⟨⟨put_self, ?_, fun side => (hv.vault side).put hnot, hlp.put hm.key_ne_lpMint, ?_,
    hm.mints_ne, hm.lpMint_ne⟩, (hf.mono ?_ fun _ => id).trans (putState_frame hnot rfl (.inl rfl))⟩
  · rw [put_of_ne fun heq => hm.config_ne_written (.inl heq)]
    exact hf.kept _ _ hm.config (by simp) hconfig
  · rwa [put_of_ne hm.key_ne_observation]
  · exact fun _ => .inr

/-- A call that leaves the observations alone finds them where they were. -/
theorem Holds.observation_kept {written debited : Pubkey → Prop} (hm : Holds p w key keys m)
    (hf : Frame written debited w w') (hnot : ¬written keys.observationKey) :
    w'.account keys.observationKey = some (.observationState m.observationState) :=
  hf.kept _ _ hm.observation (by simp) hnot

/-- A mint is where it was. -/
theorem mint_kept {debited : Pubkey → Prop} {k : Pubkey} {a : MintAccount}
    (hf : Frame (fun _ => False) debited w w') (h : w.account k = some (.mint a)) :
    w'.account k = some (.mint a) :=
  hf.kept _ _ h (by simp) id

/-- Two payments of a signer take from accounts he may spend from, the second from one as
the first left it. -/
theorem payIn_frame {w₁ : World} {written : Pubkey → Prop}
    {signer source0 vault0 mint0 source1 vault1 mint1 : Pubkey} {epoch amount0 amount1 : Nat}
    {t : TokenAccount} (hs : w.account source1 = some (.token t))
    (h0 : w.transferFromUserToPoolVault epoch signer source0 vault0 mint0 amount0 = .ok w₁)
    (h1 : w₁.transferFromUserToPoolVault epoch signer source1 vault1 mint1 amount1 = .ok w') :
    Frame written (Spends w signer) w w' := by
  have hf0 : Frame written _ w w₁ := transferFromUserToPoolVault_frame h0
  have hf1 : Frame written _ w₁ w' := transferFromUserToPoolVault_frame h1
  refine (hf0.mono (fun _ => id) ?_).trans (hf1.mono (fun _ => id) ?_)
  · exact fun _ hk => hk.2
  · rintro k ⟨rfl, hk⟩
    exact hk.of_frame hf0 hs

/-- Two payments into two vaults, not out of them, post what the payments of the market
post. -/
theorem payIn_both {w₁ : World} {signer : Pubkey} {source : PerToken Pubkey} {epoch : Nat}
    (token : PerToken TokenAccount) (mintAccount : PerToken MintAccount)
    (hv : TwoVaults p w tokenVault mint held)
    (hne : ∀ side, tokenVault.get side ≠ source.get side)
    (hs : ∀ side, w.account (source.get side) = some (.token (token.get side)))
    (hm : ∀ side, w.account (mint.get side) = some (.mint (mintAccount.get side)))
    (h0 : w.transferFromUserToPoolVault epoch signer source.token0 tokenVault.token0
      mint.token0 amount.token0 = .ok w₁)
    (h1 : w₁.transferFromUserToPoolVault epoch signer source.token1 tokenVault.token1
      mint.token1 amount.token1 = .ok w') :
    ∃ userAmount held' : PerToken Nat,
      (∀ side, NomadAmm.transferFromUserToPoolVault (mintAccount.get side).mint epoch
        (userAmount.get side) (held.get side) (amount.get side) = .ok (held'.get side)) ∧
      TwoVaults p w' tokenVault mint held' := by
  have hf0 : Frame (fun _ => False) _ w w₁ := transferFromUserToPoolVault_frame h0
  obtain ⟨held0, hpay0, hv0⟩ :=
    payIn_vault (fun _ => hne .token0) (hv.vault .token0) h0 (hs .token0) (hm .token0)
  have hv1 := transfer_other (hv.vault .token1) hv.mints_ne.symm h0
  obtain ⟨sender1, hsender1, -⟩ := hf0.token _ _ (hs .token1)
  obtain ⟨held1, hpay1, hv1'⟩ :=
    payIn_vault (fun _ => hne .token1) hv1 h1 hsender1 (mint_kept hf0 (hm .token1))
  have hv0' := transfer_other hv0 hv.mints_ne h1
  refine ⟨⟨token.token0.amount, sender1.amount⟩, ⟨held0, held1⟩, ?_, ?_, hv.mints_ne⟩
  · intro side
    cases side with
    | token0 => exact hpay0
    | token1 => exact hpay1
  · intro side
    cases side with
    | token0 => exact hv0'
    | token1 => exact hv1'

theorem deposit_served {a : ChangeLiquidity p} {k max0 max1 : Nat} {event : LpChangeEvent}
    (hm : Holds p w a.poolState keys m) (h : w.deposit clock a k max0 max1 = .ok (w', event)) :
    ∃ ownerAmount m', Instructions.deposit m ⟨clock, mintsOf w keys⟩ k max0 max1 ownerAmount =
        .ok (m', event) ∧
      Served p w w' a.owner.key a.poolState keys m' := by
  simp only [World.deposit, Run.bind_eq_ok, Prod.exists, poolState_eq_ok, hm.pool, token_eq_ok,
    mint_eq_ok, check_eq_ok, handler_eq_ok, Run.pure_eq_ok, Option.some.injEq,
    Account.poolState.injEq, Prod.mk.injEq] at h
  obtain ⟨_, _, ⟨rfl, rfl⟩, ownerLp, hownerLp, token0, htoken0, token1, htoken1, vault, mint,
    hvaults, _, _, _, ⟨hlpOwner, howner0, howner1⟩, _, _, _, hlp, amount, e, hquote, w₁, h0, w₂,
    h1, lpSupply, hsupply, w₃, h2, rfl, rfl⟩ := h
  obtain ⟨hvault, hmint, hheld, -, hmints⟩ := hm.vaults_eq hvaults
  rw [hheld] at hquote
  rw [hvault, hmint] at h0 h1
  rw [hlp] at h2
  obtain ⟨mint0, hmint0, hmeq0⟩ := hmints .token0
  obtain ⟨mint1, hmint1, hmeq1⟩ := hmints .token1
  have hne0 := (hm.vault .token0).ne_of_owner htoken0 (howner0 ▸ a.owner.key_ne)
  have hne1 := (hm.vault .token1).ne_of_owner htoken1 (howner1 ▸ a.owner.key_ne)
  have hspent : Frame (fun _ => False) (Spends w a.owner.key) w w₂ := payIn_frame htoken1 h0 h1
  obtain ⟨userAmount, held', hpay, hv⟩ := payIn_both ⟨token0, token1⟩
    ⟨mint0, mint1⟩ hm.twoVaults (fun side => by cases side <;> assumption)
    (fun side => by cases side <;> assumption) (fun side => by cases side <;> assumption) h0 h1
  -- the LP tokens go to an account of the signer
  have htakes : Frame (fun _ => False) (takes w a.owner.key keys) w w₂ :=
    hspent.mono (fun _ => id) fun _ => .inl
  obtain ⟨lp, hlpAccount, -, hlpOwner', -⟩ := htakes.token _ _ hownerLp
  have hne : lp.owner ≠ p.authority := by
    rw [hlpOwner', hlpOwner]
    exact a.owner.key_ne
  obtain ⟨supply, hsup, hlpAuthority⟩ := hm.lpMint
  obtain ⟨supply', hminted, hlp'⟩ :=
    mintTo_lpMint ⟨supply, mint_kept htakes hsup, hlpAuthority⟩ h2
  have hf2 : Frame (· = keys.lpMint) (takes w a.owner.key keys) w w₃ :=
    (htakes.mono (fun _ => False.elim) fun _ => id).trans (tokenMintTo_frame h2)
  have hv₃ : TwoVaults p w₃ keys.vault keys.tokenMint held' :=
    ⟨fun side => (hv.vault side).mintTo ((hv.vault side).ne_of_owner hlpAccount hne) h2,
      hm.mints_ne⟩
  have hserved := settle_served hm (hf2.mono (fun _ => .inl) fun _ => id) hv₃ hlp'
    (Holds.observation_kept hm hf2 hm.observation_ne_lpMint)
    { m.poolState with lpSupply, recentEpoch := clock.epoch }
  obtain rfl := eq_mintsOf hmints
  refine ⟨userAmount, _, ?_, hserved⟩
  have hpay0 := hpay .token0
  have hpay1 := hpay .token1
  simp only [PerToken.get, hmeq0, hmeq1] at hpay0 hpay1
  simp only [deposit_eq, Exec.bind_eq_ok, Prod.exists, Exec.pure_eq_ok, Prod.mk.injEq]
  exact ⟨amount, e, hquote, held'.token0, hpay0, held'.token1, hpay1, lpSupply, hsupply, supply',
    hminted, rfl, rfl⟩

theorem withdraw_served {a : ChangeLiquidity p} {k min0 min1 : Nat} {event : LpChangeEvent}
    (hm : Holds p w a.poolState keys m) (h : w.withdraw clock a k min0 min1 = .ok (w', event)) :
    ∃ held toVault m', Instructions.withdraw m ⟨clock, mintsOf w keys⟩ k min0 min1 held toVault =
        .ok (m', event) ∧
      Served p w w' a.owner.key a.poolState keys m' := by
  simp only [World.withdraw, Run.bind_eq_ok, Prod.exists, poolState_eq_ok, hm.pool, token_eq_ok,
    mint_eq_ok, check_eq_ok, handler_eq_ok, Run.pure_eq_ok, Option.some.injEq,
    Account.poolState.injEq, Prod.mk.injEq] at h
  obtain ⟨_, _, ⟨rfl, rfl⟩, ownerLp, hownerLp, _, _, _, _, vault, mint, hvaults, _, _, _, howner, _,
    _, _, hlp, amount, e, hquote, lpSupply, hsupply, w₁, h0, w₂, h1, rfl, rfl⟩ := h
  obtain ⟨hvault, hmint, hheld, -, hmints⟩ := hm.vaults_eq hvaults
  obtain rfl := eq_mintsOf hmints
  rw [hheld] at hquote
  rw [hvault, hmint] at h1
  rw [hlp] at h0
  obtain ⟨supply', hburned, hlp'⟩ := burn_lpMint hm.lpMint hownerLp h0
  have hv₁ : TwoVaults p w₁ keys.vault keys.tokenMint m.vault :=
    ⟨fun side => (hm.vault side).burn
      ((hm.vault side).ne_of_owner hownerLp (howner ▸ a.owner.key_ne)) h0, hm.mints_ne⟩
  obtain ⟨held', hpay, hv₂⟩ := payOut_vaults hv₁ h1
  have hf0 : Frame (· = keys.lpMint) (takes w a.owner.key keys) w w₁ :=
    (tokenBurn_frame h0).mono (fun _ => id) fun _ hk => .inl hk.2
  have hf1 : Frame (fun _ => False) (takes w a.owner.key keys) w₁ w₂ :=
    (payOut_frame h1).mono (fun _ => id) fun _ => .inr
  obtain ⟨burned, hburnedMint, hrest⟩ := hlp'
  have hf := hf0.trans (hf1.mono (fun _ => False.elim) fun _ => id)
  have hserved := settle_served hm (hf.mono (fun _ => .inl) fun _ => id) hv₂
    ⟨burned, mint_kept hf1 hburnedMint, hrest⟩
    (Holds.observation_kept hm hf hm.observation_ne_lpMint)
    { m.poolState with lpSupply, recentEpoch := clock.epoch }
  refine ⟨ownerLp.amount, ⟨decide (a.tokenAccount.token0 = keys.vault.token0),
    decide (a.tokenAccount.token1 = keys.vault.token1)⟩, _, ?_, hserved⟩
  simp only [payFees, Exec.bind_eq_ok, Exec.pure_eq_ok] at hpay
  obtain ⟨held0, hpay0, held1, hpay1, rfl⟩ := hpay
  simp only [withdraw_eq, Exec.bind_eq_ok, Prod.exists, Exec.pure_eq_ok, Prod.mk.injEq]
  exact ⟨amount, e, hquote, lpSupply, hsupply, supply', hburned, held0, hpay0, held1, hpay1, rfl,
    rfl⟩

/-! ## Swaps -/

theorem picked_eq_ok {α : Type} {o : Option α} {a : α} : picked o = .ok a ↔ o = some a := by
  cases o <;> simp [picked]

/-- There is no third token. -/
theorem side_cases {input output : TokenSide} (hne : input ≠ output) (side : TokenSide) :
    side = input ∨ side = output := by
  cases input <;> cases output <;> cases side <;> simp_all

/-- The constraints of a swap let through two vaults of the pool and what belongs to them. -/
theorem swapAccounts_spec {a : Swap p} {s : SwapAccounts} (hm : Holds p w a.poolState keys m)
    (h : w.swapAccounts clock a = .ok s) :
    (a.inputVault = keys.vault.get s.input ∧ a.outputVault = keys.vault.get s.output) ∧
    (a.inputTokenMint = keys.tokenMint.get s.input ∧
      a.outputTokenMint = keys.tokenMint.get s.output) ∧
    a.observationState = keys.observationKey ∧ s.keys = keys ∧ s.env.clock = clock ∧
    (∃ user, w.account a.inputTokenAccount = some (.token user)) ∧
    (s.input ≠ s.output → s.market = { m with lpMintSupply := 0 } ∧
      (∃ mint, w.account a.inputTokenMint = some (.mint mint) ∧
        s.env.mint s.input = mint.mint) ∧
      ∃ mint, w.account a.outputTokenMint = some (.mint mint) ∧
        s.env.mint s.output = mint.mint) := by
  simp only [World.swapAccounts, Run.bind_eq_ok, Prod.exists, poolState_eq_ok, hm.pool,
    ammConfig_eq_ok, token_eq_ok, mint_eq_ok, observationState_eq_ok, check_eq_ok, picked_eq_ok,
    Run.pure_eq_ok, Option.some.injEq, Account.poolState.injEq] at h
  obtain ⟨c, hc, _, _, ⟨rfl, rfl⟩, user, huser, _, _, vaultIn, hvin, vaultOut, hvout, mintIn, hmin,
    mintOut, hmout, o, ho, _, hconfig, input, hin, output, hout, _, ⟨hmintIn, hmintOut⟩, _, hobs,
    rfl⟩ := h
  rw [hm.sideOf_eq_some] at hin hout
  rw [hconfig, hm.config, Option.some.injEq, Account.ammConfig.injEq] at hc
  rw [hobs, hm.observation, Option.some.injEq, Account.observationState.injEq] at ho
  subst hc ho
  obtain ⟨tin, htin, -, hmtin, -, hamountIn⟩ := hm.vault input
  obtain ⟨tout, htout, -, hmtout, -, hamountOut⟩ := hm.vault output
  rw [hin, htin, Option.some.injEq, Account.token.injEq] at hvin
  rw [hout, htout, Option.some.injEq, Account.token.injEq] at hvout
  subst hvin hvout
  refine ⟨⟨hin, hout⟩, ⟨hmintIn.trans hmtin, hmintOut.trans hmtout⟩, hobs, rfl, rfl, ⟨user, huser⟩,
    ?_⟩
  intro hne
  have hheld : ((⟨0, 0⟩ : PerToken Nat).set input tin.amount).set output tout.amount = m.vault := by
    refine PerToken.ext ?_
    intro side
    rcases side_cases hne side with rfl | rfl
    · rw [PerToken.get_set, if_neg hne, PerToken.get_set_self, hamountIn]
    · rw [PerToken.get_set_self, hamountOut]
  refine ⟨congrArg (fun vault => { m with vault, lpMintSupply := 0 }) hheld,
    ⟨mintIn, hmin, ?_⟩, mintOut, hmout, ?_⟩
  · change PerToken.get (PerToken.set _ _ _) input = _
    rw [PerToken.get_set, if_neg hne]
    cases input <;> rfl
  · change PerToken.get (PerToken.set _ _ _) output = _
    rw [PerToken.get_set_self]

/-- A swap is priced at the mints of the pool. -/
theorem swapAccounts_env {a : Swap p} {s : SwapAccounts} (hm : Holds p w a.poolState keys m)
    (h : w.swapAccounts clock a = .ok s) (hne : s.input ≠ s.output) :
    s.env = ⟨clock, mintsOf w keys⟩ := by
  obtain ⟨-, ⟨hmintIn, hmintOut⟩, -, -, rfl, -, hrest⟩ := swapAccounts_spec hm h
  obtain ⟨-, ⟨mintIn, hin, heqIn⟩, mintOut, hout, heqOut⟩ := hrest hne
  rw [hmintIn] at hin
  rw [hmintOut] at hout
  have hmints : s.env.mints = mintsOf w keys := by
    refine eq_mintsOf ?_
    intro side
    rcases side_cases hne side with rfl | rfl
    · exact ⟨mintIn, hin, heqIn.symm⟩
    · exact ⟨mintOut, hout, heqOut.symm⟩
  rw [← hmints]

/-- The settlement of a swap on the accounts writes what that of the market does, and is it,
unless a permanent delegate pays the vault out of itself. -/
theorem settleSwap_served {a : Swap p} {s : SwapAccounts} {q : SwapQuote} {receipt : SwapReceipt}
    {less swapped : Nat} (hm : Holds p w a.poolState keys m) (hs : w.swapAccounts clock a = .ok s)
    (hne : s.input ≠ s.output)
    (hq : Settlement.Quoted m s.env s.input s.output q less swapped)
    (h : w.settleSwap a s q = .ok (w', receipt)) :
    ∃ m', Served p w w' a.payer.key a.poolState keys m' ∧ (∀ op, Write m op m') ∧
      (Undelegated w keys → ∃ userAmount toVault,
        Instructions.settleSwap m s.env s.input s.output userAmount toVault q =
          .ok (m', receipt)) := by
  obtain ⟨⟨hin, hout⟩, ⟨hmintIn, hmintOut⟩, hobs, hkeys, -, ⟨user, huser⟩, hrest⟩ :=
    swapAccounts_spec hm hs
  obtain ⟨hmarket, ⟨mint, hmint, henv⟩, -⟩ := hrest hne
  simp only [World.settleSwap, Run.bind_eq_ok, handler_eq_ok, Run.pure_eq_ok,
    Prod.mk.injEq] at h
  obtain ⟨protocolFee, hprotocol, fundFee, hfund, creatorFee, hcreator, poolState, hfees, event,
    hevent, w₁, h0, w₂, h1, o, ho, rfl, rfl⟩ := h
  rw [hmarket] at hfees hevent ho
  rw [hin, hmintIn] at h0
  rw [hout, hmintOut] at h1
  rw [hmintIn] at hmint
  rw [hobs, hkeys]
  have hf0 : Frame (fun _ => False) (fun k => k = a.inputTokenAccount ∧ Spends w a.payer.key k)
      w w₁ := transferFromUserToPoolVault_frame h0
  obtain ⟨held, hvin, -⟩ := (hm.vault s.input).of_frame hf0
  have hvout := transfer_other (hm.vault s.output) (hm.mints_get_ne hne.symm) h0
  obtain ⟨held', hpay', hvout'⟩ := payOut_vault hvout h1
  have hvin' := payOut_other hvin (hm.mints_get_ne hne) h1
  have hv : TwoVaults p w₂ keys.vault keys.tokenMint
      ((m.vault.set s.input held).set s.output held') := by
    refine ⟨?_, hm.mints_ne⟩
    intro side
    rcases side_cases hne side with rfl | rfl
    · rw [PerToken.get_set, if_neg hne, PerToken.get_set_self]
      exact hvin'
    · rw [PerToken.get_set_self]
      exact hvout'
  have hf0' : Frame (fun _ => False) (takes w a.payer.key keys) w w₁ :=
    hf0.mono (fun _ => id) fun _ hk => .inl hk.2
  have hf1 : Frame (fun _ => False) (takes w a.payer.key keys) w₁ w₂ := by
    refine (transferFromPoolVaultToUser_frame h1).mono (fun _ => id) ?_
    rintro k rfl
    exact .inr ⟨_, rfl⟩
  have hf := hf0'.trans hf1
  have hobserved : ∀ t, w₂.account keys.observationKey ≠ some (.token t) := by
    intro t ht
    rw [Holds.observation_kept hm hf id] at ht
    cases ht
  obtain ⟨lp, hlp, hlpRest⟩ := hm.lpMint
  have hwrite : Frame (fun k => k = keys.lpMint ∨ k = keys.observationKey)
      (takes w a.payer.key keys) w
      (w₂.put keys.observationKey (.observationState o)) :=
    (hf.mono (fun _ => False.elim) fun _ => id).trans (putState_frame hobserved rfl (.inr rfl))
  have hserved := settle_served hm hwrite ⟨fun side => (hv.vault side).put hobserved, hv.mints_ne⟩
    (IsLpMint.put ⟨lp, mint_kept hf hlp, hlpRest⟩ hm.observation_ne_lpMint.symm) put_self
    { poolState with recentEpoch := s.env.clock.epoch }
  refine ⟨_, hserved, fun op => updateFees_write hq hfees _ o, ?_⟩
  intro hnone
  -- what is paid comes from an account that the payer may spend from, so not from the vault
  have hsource : q.inputTransferAmount ≠ 0 → keys.vault.get s.input ≠ a.inputTokenAccount := by
    intro hpos heq
    have hspends := spends_of_transfer hpos h0
    rw [← heq] at hspends
    exact (hm.vault s.input).not_spends a.payer.key_ne (hnone s.input) hspends
  obtain ⟨held₁, hpay, hvin₁⟩ := payIn_vault hsource (hm.vault s.input) h0 huser hmint
  obtain rfl := hvin.unique hvin₁
  refine ⟨user.amount, decide (a.outputTokenAccount = keys.vault.get s.output), ?_⟩
  simp only [Instructions.settleSwap, Exec.bind_eq_ok, Exec.pure_eq_ok, henv]
  exact ⟨protocolFee, hprotocol, fundFee, hfund, creatorFee, hcreator, poolState, hfees, event,
    hevent, held, hpay, held', hpay', o, ho, rfl⟩

/-- A quote names two different vaults. -/
theorem quotes_sides_ne {env : Env} {inputVault outputVault : TokenSide} {x y : Nat}
    {q : SwapQuote} (h : Settlement.Quotes m env inputVault outputVault x y q) :
    inputVault ≠ outputVault := by
  obtain ⟨_, _, hq⟩ := h.quoted
  obtain ⟨_, -, hprice⟩ := hq.cached
  obtain ⟨rfl, rfl, -⟩ := Settlement.priceSwap_sides hprice
  exact TradeDirection.input_ne_output _

theorem swapBaseInput_served {a : Swap p} {amountIn minimumAmountOut : Nat} {receipt : SwapReceipt}
    (hm : Holds p w a.poolState keys m)
    (h : w.swapBaseInput clock a amountIn minimumAmountOut = .ok (w', receipt)) :
    ∃ m', Served p w w' a.payer.key a.poolState keys m' ∧ (∀ op, Write m op m') ∧
      (Undelegated w keys → ∃ input output userAmount toVault,
        Instructions.swapBaseInput m ⟨clock, mintsOf w keys⟩ input output amountIn minimumAmountOut
          userAmount toVault = .ok (m', receipt)) := by
  simp only [World.swapBaseInput, Run.bind_eq_ok, handler_eq_ok] at h
  obtain ⟨s, hs, q, hquote, hsettle⟩ := h
  have hne := quotes_sides_ne (.inl hquote)
  obtain ⟨-, -, -, -, -, -, hrest⟩ := swapAccounts_spec hm hs
  rw [(hrest hne).1] at hquote
  obtain ⟨less, swapped, hq, -⟩ := Settlement.quoteBaseInput_spec (m := m) hquote
  obtain ⟨m', hserved, hwrite, hsame⟩ := settleSwap_served hm hs hne hq hsettle
  refine ⟨m', hserved, hwrite, ?_⟩
  intro hnone
  obtain ⟨userAmount, toVault, hm'⟩ := hsame hnone
  rw [swapAccounts_env hm hs hne] at hquote hm'
  refine ⟨s.input, s.output, userAmount, toVault, ?_⟩
  simp only [Instructions.swapBaseInput, Exec.bind_eq_ok]
  exact ⟨q, hquote, hm'⟩

theorem swapBaseOutput_served {a : Swap p} {maxAmountIn amountOut : Nat} {receipt : SwapReceipt}
    (hm : Holds p w a.poolState keys m)
    (h : w.swapBaseOutput clock a maxAmountIn amountOut = .ok (w', receipt)) :
    ∃ m', Served p w w' a.payer.key a.poolState keys m' ∧ (∀ op, Write m op m') ∧
      (Undelegated w keys → ∃ input output userAmount toVault,
        Instructions.swapBaseOutput m ⟨clock, mintsOf w keys⟩ input output maxAmountIn amountOut
          userAmount toVault = .ok (m', receipt)) := by
  simp only [World.swapBaseOutput, Run.bind_eq_ok, handler_eq_ok] at h
  obtain ⟨s, hs, q, hquote, hsettle⟩ := h
  have hne := quotes_sides_ne (.inr hquote)
  obtain ⟨-, -, -, -, -, -, hrest⟩ := swapAccounts_spec hm hs
  rw [(hrest hne).1] at hquote
  obtain ⟨less, swapped, hq, -⟩ := Settlement.quoteBaseOutput_spec (m := m) hquote
  obtain ⟨m', hserved, hwrite, hsame⟩ := settleSwap_served hm hs hne hq hsettle
  refine ⟨m', hserved, hwrite, ?_⟩
  intro hnone
  obtain ⟨userAmount, toVault, hm'⟩ := hsame hnone
  rw [swapAccounts_env hm hs hne] at hquote hm'
  refine ⟨s.input, s.output, userAmount, toVault, ?_⟩
  simp only [Instructions.swapBaseOutput, Exec.bind_eq_ok]
  exact ⟨q, hquote, hm'⟩

end NomadAmm.Soundness.PoolCalls

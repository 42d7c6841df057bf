import NomadAmm.Soundness.PoolCalls

/-! Creating a pool on the accounts creates a market: its vaults, LP mint and
observations are new, so no other pool has them. -/

namespace NomadAmm.Soundness.PoolCreation

open Lib.Checked Lib.Transition Exec Run World Instructions
open Soundness.Frames Soundness.Representation Soundness.PoolCalls

variable {p : Addresses} {w w' : World} {clock : Clock} {a : Initialize p}

/-- Every account there was is still there. -/
def Extends (w w' : World) : Prop := ∀ k account, w.account k = some account →
  w'.account k = some account

theorem Extends.trans {w'' : World} (h : Extends w w') (h' : Extends w' w'') : Extends w w'' :=
  fun k account hk => h' k account (h k account hk)

theorem Extends.none (h : Extends w w') {k : Pubkey} (hk : w'.account k = none) :
    w.account k = none := by
  cases hw : w.account k with
  | none => rfl
  | some account =>
    rw [h k account hw] at hk
    cases hk

/-- A new token account of `authority`. -/
theorem createTokenAccount_spec {authority k mint : Pubkey}
    (h : w.createTokenAccount authority k mint = .ok w') :
    Extends w w' ∧ w.account k = none ∧ ∃ amount < 2 ^ 64,
      w'.account k = some (.token (.opened mint authority amount)) := by
  simp only [World.createTokenAccount, Run.bind_eq_ok] at h
  obtain ⟨_, _, h⟩ := h
  refine ⟨fun _ _ => create_extends h, (create_eq_ok.mp h).1,
    if IsNative mint then (w.lamports k).toNat else 0, ?_, ?_⟩
  · split
    · exact (w.lamports k).toNat_lt
    · decide
  · obtain ⟨-, rfl⟩ := create_eq_ok.mp h
    exact put_self

/-- What the account constraints of a pool's creation leave. -/
structure Prepared (p : Addresses) (w w' : World) (a : Initialize p) : Prop where
  extends_ : Extends w w'
  frame : ∀ debited, Frame (· = a.observationState) debited w w'
  mints_lt : a.tokenMint.token0 < a.tokenMint.token1
  lpMint : IsLpMint p w' a.lpMint 0
  lpMint_none : w.account a.lpMint = none
  payerLpToken : ∃ t, w'.account a.payerLpToken = some (.token t) ∧ t.owner = a.payer.key
  observation : w'.account a.observationState = some (.observationState .default)
  observation_none : w.account a.observationState = none
  payer : ∀ side, ∃ t, w.account (a.payerToken.get side) = some (.token t)
  receiver : ∃ t, w.account createPoolFeeReceiver = some (.token t)

theorem initializeAccounts_spec (h : w.initializeAccounts a = .ok w') : Prepared p w w' a := by
  simp only [World.initializeAccounts, Run.bind_eq_ok, token_eq_ok, check_eq_ok] at h
  obtain ⟨t0, ht0, t1, ht1, t2, ht2, _, hlt, _, _, w₁, h1, _, _, _, _, _, _, w₂, h2, _, _, _,
    hreceiver, _, _, h3⟩ := h
  have hext1 : Extends w w₁ := fun _ _ => create_extends h1
  have hext3 : Extends w₂ w' := fun _ _ => create_extends h3
  obtain ⟨hnone1, hput1⟩ := create_eq_ok.mp h1
  obtain ⟨hext2, -, amount, -, hlpToken⟩ := createTokenAccount_spec h2
  obtain ⟨hnone3, hput3⟩ := create_eq_ok.mp h3
  refine ⟨(hext1.trans hext2).trans hext3, ?_, hlt, ?_, hnone1, ⟨_, hext3 _ _ hlpToken, rfl⟩, ?_,
    (hext1.trans hext2).none hnone3, ?_, ⟨t2, hreceiver ▸ ht2⟩⟩
  · intro debited
    have hlp : KeepsDelegate none (.mint ⟨Mint.plain 9, 0, some p.authority, none⟩) := by
      rintro a d ⟨⟩ hd
      cases hd
    exact ((createToken_frame h1 rfl hlp).trans (createTokenAccount_frame h2)).trans
      (create_frame h3 (.of_program rfl))
  · have hnew : w₁.account a.lpMint =
        some (.mint ⟨Mint.plain 9, 0, some p.authority, none⟩) := by
      rw [← hput1, put_self]
    exact ⟨_, hext3 _ _ (hext2 _ _ hnew), rfl, rfl⟩
  · rw [← hput3, put_self]
  · intro side
    cases side with
    | token0 => exact ⟨t0, ht0⟩
    | token1 => exact ⟨t1, ht1⟩

/-- Both vaults of a new pool: nobody's to spend from, and empty unless they are of wrapped
SOL and someone had sent them lamports. -/
theorem openVaults_spec {w₁ : World} {tokenVault mint : PerToken Pubkey}
    (hne : mint.token0 ≠ mint.token1)
    (h0 : w.createTokenAccount p.authority tokenVault.token0 mint.token0 = .ok w₁)
    (h1 : w₁.createTokenAccount p.authority tokenVault.token1 mint.token1 = .ok w') :
    Extends w w' ∧ (∀ side, w.account (tokenVault.get side) = none) ∧
      ∃ held, TwoVaults p w' tokenVault mint held ∧ ∀ side, held.get side < 2 ^ 64 := by
  obtain ⟨hext0, hnone0, held0, hlt0, ht0⟩ := createTokenAccount_spec h0
  obtain ⟨hext1, hnone1, held1, hlt1, ht1⟩ := createTokenAccount_spec h1
  refine ⟨hext0.trans hext1, ?_, ⟨held0, held1⟩, ⟨?_, hne⟩, ?_⟩
  · intro side
    cases side with
    | token0 => exact hnone0
    | token1 => exact hext0.none hnone1
  · intro side
    cases side with
    | token0 => exact ⟨_, hext1 _ _ ht0, rfl, rfl, rfl, rfl⟩
    | token1 => exact ⟨_, ht1, rfl, rfl, rfl, rfl⟩
  · intro side
    cases side with
    | token0 => exact hlt0
    | token1 => exact hlt1

/-- **The fee for a pool**: nothing, or lamports that raise what the receiver has of wrapped
SOL. -/
theorem chargeCreatePoolFee_cases {payer : Pubkey} {fee : Nat}
    (h : w.chargeCreatePoolFee payer fee = .ok w') :
    fee = 0 ∧ w' = w ∨ fee ≤ (w.lamports payer).toNat ∧ ∃ t amount,
      w.account createPoolFeeReceiver = some (.token t) ∧ t.mint = nativeMint .token ∧
        t.amount ≤ amount ∧ amount < 2 ^ 64 ∧
        w'.account = (w.put createPoolFeeReceiver (.token { t with amount })).account := by
  unfold World.chargeCreatePoolFee at h
  split at h
  · simp only [World.syncNative, Run.bind_eq_ok, token_eq_ok, check_eq_ok, Run.pure_eq_ok] at h
    obtain ⟨w₁, hmove, t, ht, _, hmint, _, hle, rfl⟩ := h
    obtain ⟨haccount, hpaid⟩ := moveLamports_account hmove
    refine .inr ⟨hpaid, t, _, haccount ▸ ht, hmint, hle,
      (w₁.lamports createPoolFeeReceiver).toNat_lt, ?_⟩
    simp only [World.put, haccount]
  · next h0 => exact .inl ⟨not_not.mp h0, (Run.pure_eq_ok.mp h).symm⟩

/-- No account but the receiver's changes. -/
theorem chargeCreatePoolFee_spec {payer : Pubkey} {fee : Nat}
    (h : w.chargeCreatePoolFee payer fee = .ok w') :
    (∀ k, k ≠ createPoolFeeReceiver → w'.account k = w.account k) ∧
      (∀ written debited, Frame written debited w w') ∧
      (fee = 0 ∨ fee ≤ (w.lamports payer).toNat) := by
  rcases chargeCreatePoolFee_cases h with
    ⟨h0, rfl⟩ | ⟨hpaid, t, amount, ht, -, hle, hlt, haccount⟩
  · exact ⟨fun _ _ => rfl, fun _ _ => .refl _, .inl h0⟩
  · refine ⟨?_, ?_, .inr hpaid⟩
    · intro k hk
      rw [haccount, put_of_ne hk]
    · intro written debited
      refine Frame.congr ?_ haccount
      exact putToken_frame ht rfl rfl (.inl rfl) (fun _ => hle) fun _ => hlt

/-- The market of a new pool: the amounts its vaults got, however they came there, would
have made it on its own. -/
theorem initializePool_of_held {c : AmmConfig} (poolCreator : Pubkey) (creatorFeeOn : CreatorFeeOn)
    (enableCreatorFee : Bool) {args : InitializeArgs} {env : Env} {held : PerToken Nat}
    {openTime product liquidity minted supply lamports : Nat}
    (hlt : ∀ side, held.get side < 2 ^ 64) (hargs : validateArgs c args = .ok ())
    (hopen : adjustOpenTime env args.openTime = .ok openTime)
    (hsupply : CurveCalculator.validateSupply held.token0 held.token1 = .ok ())
    (hproduct : unwrap (checkedMul 128 held.token0 held.token1) = .ok product)
    (hliquidity : unwrap (tryFrom 64 (Nat.sqrt product)) = .ok liquidity)
    (hminted : okOr .initLpAmountTooLess (checkedSub liquidity lockLpAmount) = .ok minted)
    (hminting : NomadAmm.tokenMintTo 0 minted = .ok supply)
    (hpaid : c.createPoolFee = 0 ∨ c.createPoolFee ≤ lamports) :
    Instructions.initializePool c ⟨env.clock,
          ⟨Mint.plain (env.mint .token0).decimals, Mint.plain (env.mint .token1).decimals⟩⟩
        poolCreator creatorFeeOn enableCreatorFee
        { args with initAmount0 := held.token0, initAmount1 := held.token1 } ⟨held, lamports⟩ =
      .ok { ammConfig := c, vault := held, lpMintSupply := supply, observationState := .default
            poolState := initialPoolState env liquidity openTime poolCreator creatorFeeOn
              enableCreatorFee args } := by
  have h0 := transfer_plain (env.mint .token0).decimals env.clock.epoch
    ((Nat.zero_add _).trans_lt (hlt .token0))
  have h1 := transfer_plain (env.mint .token1).decimals env.clock.epoch
    ((Nat.zero_add _).trans_lt (hlt .token1))
  rw [Nat.zero_add] at h0 h1
  simp only [Instructions.initializePool, Exec.bind_eq_ok, Exec.require_eq_ok, Exec.pure_eq_ok]
  exact ⟨(), hargs, openTime, hopen, held.token0, h0, held.token1, h1, (), hsupply, product,
    hproduct, liquidity, hliquidity, minted, hminted, supply, hminting, (), hpaid, rfl⟩

/-- The new pool, its market, and that nothing was where its accounts are. -/
structure Created (p : Addresses) (w w' : World) (a : Initialize p) (m : Market) : Prop where
  served : Served p w w' a.payer.key a.poolState (Initialize.keys a) m
  written_none : ∀ k, writes a.poolState (Initialize.keys a) k → w.account k = none
  vault_none : ∀ side, w.account ((Initialize.keys a).vault.get side) = none

/-- **Creating a pool.** -/
theorem initializePool_created {poolCreator : Pubkey} {creatorFeeOn : CreatorFeeOn}
    {enableCreatorFee : Bool} {args : InitializeArgs}
    (h : w.initializePool clock a poolCreator creatorFeeOn enableCreatorFee args = .ok w') :
    ∃ c env args' payer m, w.account a.ammConfig = some (.ammConfig c) ∧
      Instructions.initializePool c env poolCreator creatorFeeOn enableCreatorFee args' payer =
        .ok m ∧
      Created p w w' a m := by
  simp only [World.initializePool, Run.bind_eq_ok, ammConfig_eq_ok, mint_eq_ok, token_eq_ok,
    handler_eq_ok, World.createPool, check_eq_ok, Option.isNone_iff_eq_none, Run.pure_eq_ok] at h
  obtain ⟨c, hc, mint0, hmint0, mint1, hmint1, w₃, h3, _, hargs, openTime, hopen, w₄, h4, w₅, h5,
    _, ⟨_, hnone, _⟩, w₆, h6, w₇, h7, vault0, hvault0, vault1, hvault1, _, hsupply, product,
    hproduct, liquidity, hliquidity, minted, hminted, w₈, h8, w₉, h9, rfl⟩ := h
  have hprep := initializeAccounts_spec h3
  obtain ⟨hext5, hvaults_none, held₅, hv₅, hlt₅⟩ := openVaults_spec hprep.mints_lt.ne h4 h5
  have hext := hprep.extends_.trans hext5
  have hframe5 : Frame (writes a.poolState (Initialize.keys a)) (Spends w a.payer.key) w w₅ :=
    (((hprep.frame _).trans (createTokenAccount_frame h4)).trans
      (createTokenAccount_frame h5)).mono (fun _ hk => .inr (.inr hk)) fun _ => id
  -- the two payments
  obtain ⟨t1, ht1⟩ := hprep.payer .token1
  have hspent : Frame (fun _ => False) (Spends w₅ a.payer.key) w₅ w₇ :=
    payIn_frame (hext _ _ ht1) h6 h7
  obtain ⟨held, hv₇, hlt⟩ := hv₅.of_frame hlt₅ hspent
  have hamount0 := (hv₇.vault .token0).amount_eq hvault0
  have hamount1 := (hv₇.vault .token1).amount_eq hvault1
  change vault0.amount = held.token0 at hamount0
  change vault1.amount = held.token1 at hamount1
  rw [hamount0, hamount1] at hsupply hproduct
  -- the LP tokens go to an account of the payer
  obtain ⟨lp, hlp, hlpOwner⟩ := hprep.payerLpToken
  obtain ⟨lp', hlp', -, hlpOwner', -⟩ := hspent.token _ _ (hext5 _ _ hlp)
  have hlpNe : lp'.owner ≠ p.authority := by
    rw [hlpOwner', hlpOwner]
    exact a.payer.key_ne
  obtain ⟨lpMint, hlpMint, hlpRest⟩ := hprep.lpMint
  obtain ⟨supply, hminting, hlpMint₈⟩ :=
    mintTo_lpMint ⟨lpMint, mint_kept hspent (hext5 _ _ hlpMint), hlpRest⟩ h8
  have hv₈ : TwoVaults p w₈ a.tokenVault a.tokenMint held :=
    ⟨fun side => (hv₇.vault side).mintTo ((hv₇.vault side).ne_of_owner hlp' hlpNe) h8,
      hprep.mints_lt.ne⟩
  have hf₈ : Frame (· = a.lpMint) (Spends w₅ a.payer.key) w₅ w₈ :=
    (hspent.mono (fun _ => False.elim) fun _ => id).trans (tokenMintTo_frame h8)
  obtain ⟨hothers, hcharged, hpaid⟩ := chargeCreatePoolFee_spec h9
  -- what was there when the pool account was not yet is not the pool account, and what was
  -- not when the receiver of the fee was is not the receiver
  have hput : ∀ k account account', w₅.account k = some account' → k ≠ createPoolFeeReceiver →
      (w₉.put a.poolState account).account k = w₈.account k := by
    intro k account account' hk hreceiver
    rw [put_of_ne, hothers k hreceiver]
    rintro rfl
    rw [hnone] at hk
    cases hk
  obtain ⟨receiver, hreceiver⟩ := hprep.receiver
  have hreceiver_none : ∀ k, w.account k = none → k ≠ createPoolFeeReceiver := by
    rintro k hk rfl
    rw [hreceiver] at hk
    cases hk
  have hconfigKept : w₈.account a.ammConfig = some (.ammConfig c) := by
    refine hf₈.kept _ _ (hext _ _ hc) (by simp) ?_
    intro heq
    rw [heq, hprep.lpMint_none] at hc
    cases hc
  have hobs₅ := hext5 _ _ hprep.observation
  have hobsKept := hf₈.kept _ _ hobs₅ (by simp)
    (ne_of_account hprep.observation hlpMint (by simp))
  have hvaults_new : ∀ side, w.account (a.tokenVault.get side) = none :=
    fun side => hprep.extends_.none (hvaults_none side)
  have hmarket := initializePool_of_held poolCreator creatorFeeOn enableCreatorFee hlt hargs hopen
    hsupply hproduct hliquidity hminted hminting hpaid
  refine ⟨c, _, _, _, _, hc, hmarket, ⟨⟨put_self, ?_, ?_, ?_, ?_, hprep.mints_lt.ne, ?_⟩, ?_⟩, ?_,
    hvaults_new⟩
  · rw [← hconfigKept]
    exact hput _ _ _ (hext _ _ hc) (ne_of_account hc hreceiver (by simp))
  · intro side
    obtain ⟨t₅, ht₅, -⟩ := hv₅.vault side
    obtain ⟨t, ht, hrest⟩ := hv₈.vault side
    exact ⟨t, (hput _ _ _ ht₅ (hreceiver_none _ (hvaults_new side))).trans ht, hrest⟩
  · obtain ⟨mint, hmint, hrest⟩ := hlpMint₈
    exact ⟨mint, (hput _ _ _ (hext5 _ _ hlpMint) (hreceiver_none _ hprep.lpMint_none)).trans hmint,
      hrest⟩
  · exact (hput _ _ _ hobs₅ (hreceiver_none _ hprep.observation_none)).trans hobsKept
  · intro side heq
    have hnew := hprep.lpMint_none
    change a.tokenMint.get side = a.lpMint at heq
    rw [← heq] at hnew
    cases side with
    | token0 => exact Option.some_ne_none _ (hmint0.symm.trans hnew)
    | token1 => exact Option.some_ne_none _ (hmint1.symm.trans hnew)
  · have hf₉ : Frame (writes a.poolState (Initialize.keys a)) (Spends w₅ a.payer.key) w₅ w₉ :=
      (hf₈.mono (fun _ hk => .inr (.inl hk)) fun _ => id).trans (hcharged _ _)
    have hall : Frame (writes a.poolState (Initialize.keys a)) (Spends w a.payer.key) w w₉ :=
      hframe5.trans_of hf₉ fun _ _ hk hspends => hspends.of_frame hframe5 hk
    exact (hall.mono (fun _ => id) fun _ => .inl).putNew (hext.none hnone) (.inl rfl) rfl
  · intro k hk
    rcases hk with rfl | rfl | rfl
    · exact hext.none hnone
    · exact hprep.lpMint_none
    · exact hprep.observation_none

end NomadAmm.Soundness.PoolCreation

import NomadAmm.Lib.Balance
import NomadAmm.Soundness.Refinement

/-! Tokens are neither made nor lost. What all accounts hold of a token, what their
transfers withheld included, moves with the supply of its mint and with nothing else.
Wrapped SOL is the exception: an account of it also gets the lamports it was sent. -/

namespace NomadAmm.Soundness.Conservation

open Lib.Balance Lib.Checked Lib.Transition Relation Exec Run World Instructions
open Soundness.Frames Soundness.Representation Soundness.PoolCalls Soundness.PoolCreation
open Soundness.Refinement

variable {p : Addresses} {w w' w'' : World} {clock : Clock} {call : Invocation p}
  {emitted : Option Emitted} {allowed : Invocation p → Prop} {seizable : Pubkey → Prop}
  {mint : Pubkey}
  {key key' mintKey source destination authority : Pubkey} {account account' : Account}
  {epoch amount : Nat}

/-- What an account holds of a token. -/
def held (mint : Pubkey) : Option Account → Nat
  | some (.token t) => if t.mint = mint then t.amount + t.withheldAmount else 0
  | _ => 0

def issued : Option Account → Nat
  | some (.mint a) => a.supply
  | _ => 0

/-- The accounts hold more of a token by what was minted, less by what was burned. -/
def Conserves (mint : Pubkey) (w w' : World) : Prop :=
  Shifted (fun k => held mint (w.account k)) (fun k => held mint (w'.account k))
    (issued (w.account mint)) (issued (w'.account mint))

theorem Conserves.refl (w : World) : Conserves mint w w := Shifted.refl _ _

theorem Conserves.trans (h : Conserves mint w w') (h' : Conserves mint w' w'') :
    Conserves mint w w'' :=
  (Shifted.trans h h').congr (Nat.add_assoc _ _ _)

/-- Lamports are not counted. -/
theorem Conserves.congr (h : Conserves mint w w'') (haccount : w'.account = w''.account) :
    Conserves mint w w' := by
  unfold Conserves
  rw [haccount]
  exact h

/-! ## Writing accounts -/

theorem held_put : (fun k => held mint ((w.put key account).account k)) =
    Function.update (fun k => held mint (w.account k)) key (held mint (some account)) := by
  funext k
  by_cases h : k = key
  · subst h
    rw [put_self, Function.update_self]
  · rw [put_of_ne h, Function.update_of_ne h]

theorem put_conserves
    (h : held mint (w.account key) + issued ((w.put key account).account mint) =
      issued (w.account mint) + held mint (some account)) :
    Conserves mint w (w.put key account) := by
  unfold Conserves
  rw [held_put]
  exact (Shifted.update _ _ _).congr h

/-- Two accounts between which tokens move. -/
theorem puts_conserves (hne : key ≠ key')
    (h : held mint (w.account key) + held mint (w.account key') +
        issued (((w.put key account).put key' account').account mint) =
      issued (w.account mint) + (held mint (some account) + held mint (some account'))) :
    Conserves mint w ((w.put key account).put key' account') := by
  have hfirst := Shifted.update (fun k => held mint (w.account k)) key (held mint (some account))
  rw [← held_put] at hfirst
  have hsecond := Shifted.update (fun k => held mint ((w.put key account).account k)) key'
    (held mint (some account'))
  rw [← held_put, put_of_ne hne.symm] at hsecond
  exact (hfirst.trans hsecond).congr h

/-- A token account over a token account is no mint. -/
theorem issued_put_token {t t' : TokenAccount} (h : w.account key = some (.token t)) :
    issued ((w.put key (.token t')).account mint) = issued (w.account mint) := by
  by_cases hk : mint = key
  · subst hk
    rw [put_self, h]
    rfl
  · rw [put_of_ne hk]

/-- An account of the program holds no tokens and issues none. -/
def Plain (account : Account) : Prop := account.ofTokenProgram = false

theorem held_plain (h : Plain account) : held mint (some account) = 0 := by
  cases account with
  | mint => cases h
  | token => cases h
  | _ => rfl

theorem issued_plain (h : Plain account) : issued (some account) = 0 := by
  cases account with
  | mint => cases h
  | token => cases h
  | _ => rfl

/-- A program account written over another, or where nothing was. -/
theorem putPlain_conserves (hold : ∀ a, w.account key = some a → Plain a) (hnew : Plain account) :
    Conserves mint w (w.put key account) := by
  refine put_conserves ?_
  have hheld : held mint (w.account key) = 0 := by
    cases h : w.account key with
    | none => rfl
    | some a => exact held_plain (hold a h)
  have hissued : issued ((w.put key account).account mint) = issued (w.account mint) := by
    by_cases hk : mint = key
    · subst hk
      rw [put_self, issued_plain hnew]
      cases h : w.account mint with
      | none => rfl
      | some a => exact (issued_plain (hold a h)).symm
    · rw [put_of_ne hk]
  rw [hheld, hissued, held_plain hnew, Nat.zero_add, Nat.add_zero]

/-- A new account without tokens, or a new mint without supply. -/
theorem create_conserves (h : w.create key account = .ok w')
    (hheld : held mint (some account) = 0)
    (hissued : issued (some account) = 0) : Conserves mint w w' := by
  obtain ⟨hnone, rfl⟩ := create_eq_ok.mp h
  refine put_conserves ?_
  have hsame : issued ((w.put key account).account mint) = issued (w.account mint) := by
    by_cases hk : mint = key
    · subst hk
      rw [put_self, hnone, hissued]
      rfl
    · rw [put_of_ne hk]
  rw [hnone, hsame, hheld]
  exact Nat.add_comm _ _

theorem remove_conserves (hold : ∀ a, w.account key = some a → Plain a) :
    Conserves mint w (w.remove key) := by
  have hsame : ∀ k, held mint ((w.remove key).account k) = held mint (w.account k) ∧
      issued ((w.remove key).account k) = issued (w.account k) := by
    intro k
    by_cases hk : k = key
    · subst hk
      simp only [World.remove, Function.update_self]
      cases h : w.account k with
      | none => exact ⟨rfl, rfl⟩
      | some a => exact ⟨(held_plain (hold a h)).symm, (issued_plain (hold a h)).symm⟩
    · simp [World.remove, Function.update_of_ne hk]
  have hheld : (fun k => held mint ((w.remove key).account k)) = fun k => held mint (w.account k) :=
    funext fun k => (hsame k).1
  unfold Conserves
  rw [hheld, (hsame mint).2]
  exact Shifted.refl _ _

/-! ## Token instructions -/

theorem transferChecked_conserves
    (h : w.transferChecked epoch authority source destination mintKey amount = .ok w') :
    Conserves mint w w' := by
  obtain ⟨sender, receiver, a, fee, hs, hr, -, hle, ⟨hmint, -⟩, -, -, h⟩ := transferChecked_spec h
  rcases h with ⟨-, haccount⟩ | ⟨hne, credited, hc, haccount⟩
  · exact (Conserves.refl w).congr haccount
  · obtain ⟨hdmint, -, hdamount, hdwithheld, -⟩ :=
      debit_spec sender a.permanentDelegate authority amount
    generalize sender.debit a.permanentDelegate authority amount = debited at *
    obtain ⟨hfee, -, -, rfl⟩ := credit_eq_ok.mp hc
    refine Conserves.congr (puts_conserves hne ?_) haccount
    have hr' : (w.put source (.token debited)).account destination = some (.token receiver) := by
      rwa [put_of_ne hne.symm]
    rw [issued_put_token hr', issued_put_token hs, hs, hr]
    simp only [held, hdmint, hdamount, hdwithheld, ← hmint]
    split
    · omega
    · omega

theorem transferFromUserToPoolVault_conserves
    (h : w.transferFromUserToPoolVault epoch authority source destination mintKey amount = .ok w') :
    Conserves mint w w' := by
  unfold World.transferFromUserToPoolVault at h
  split at h
  · obtain rfl := Run.pure_eq_ok.mp h
    exact .refl w
  · exact transferChecked_conserves h

theorem transferFromPoolVaultToUser_conserves
    (h : w.transferFromPoolVaultToUser epoch authority source destination mintKey amount = .ok w') :
    Conserves mint w w' := by
  unfold World.transferFromPoolVaultToUser at h
  split at h
  · obtain rfl := Run.pure_eq_ok.mp h
    exact .refl w
  · exact transferChecked_conserves h

/-- An account and its mint, both changed by the same amount. -/
theorem mintPair_conserves {t t' : TokenAccount} {a a' : MintAccount}
    (ht : w.account key = some (.token t)) (ha : w.account mintKey = some (.mint a))
    (htmint : t.mint = mintKey) (htmint' : t'.mint = mintKey)
    (hsame : t.amount + t.withheldAmount + a'.supply = a.supply + (t'.amount + t'.withheldAmount)) :
    Conserves mint w ((w.put key (.token t')).put mintKey (.mint a')) := by
  have hne : key ≠ mintKey := ne_of_account ht ha (by simp)
  refine puts_conserves hne ?_
  rw [ht, ha]
  by_cases hk : mint = mintKey
  · subst hk
    rw [put_self, ha]
    simp only [held, issued, htmint, htmint', if_true]
    omega
  · rw [put_of_ne hk, issued_put_token ht]
    simp only [held, htmint, htmint', if_neg (Ne.symm hk)]
    omega

theorem tokenMintTo_conserves
    (h : w.tokenMintTo authority mintKey destination amount = .ok w') : Conserves mint w w' := by
  simp only [World.tokenMintTo, Run.bind_eq_ok, token_eq_ok, mint_eq_ok, handler_eq_ok,
    tokenCheck_eq_ok, checkedAdd_eq_some, NomadAmm.tokenMintTo_eq_ok, check_eq_ok,
    Run.pure_eq_ok] at h
  obtain ⟨receiver, hr, a, ha, _, -, _, hmint, _, _, _, ⟨-, rfl⟩, supply, ⟨-, rfl⟩, rfl⟩ := h
  refine mintPair_conserves hr ha hmint hmint ?_
  dsimp only
  omega

theorem tokenBurn_conserves (h : w.tokenBurn authority mintKey source amount = .ok w') :
    Conserves mint w w' := by
  simp only [World.tokenBurn, Run.bind_eq_ok, token_eq_ok, mint_eq_ok, handler_eq_ok,
    check_eq_ok, NomadAmm.tokenBurn_eq_ok, Run.pure_eq_ok] at h
  obtain ⟨holder, hh, a, ha, _, -, _, hmint, supply, ⟨hle, hsupply, rfl⟩, _, -, rfl⟩ := h
  obtain ⟨hdmint, -, hdamount, hdwithheld, -⟩ :=
    debit_spec holder a.permanentDelegate authority amount
  refine mintPair_conserves hh ha hmint (hdmint.trans hmint) ?_
  rw [hdamount, hdwithheld]
  dsimp only
  omega

/-- An account of wrapped SOL may be opened with lamports in it. -/
theorem createTokenAccount_conserves (hnative : ¬IsNative mint)
    (h : w.createTokenAccount authority destination mintKey = .ok w') : Conserves mint w w' := by
  simp only [World.createTokenAccount, Run.bind_eq_ok] at h
  obtain ⟨_, -, h⟩ := h
  refine create_conserves h ?_ rfl
  by_cases hmint : mintKey = mint
  · subst hmint
    simp [held, TokenAccount.opened, hnative]
  · simp [held, TokenAccount.opened, hmint]

/-! ## Instructions -/

theorem initAssociated_conserves {wallet : Pubkey} {m : Mint} (hnative : ¬IsNative mint)
    (h : w.initAssociated p wallet m mintKey key = .ok w') : Conserves mint w w' := by
  simp only [World.initAssociated, Run.bind_eq_ok, check_eq_ok] at h
  obtain ⟨_, -, h⟩ := h
  split at h
  · exact createTokenAccount_conserves hnative h
  · simp only [Run.bind_eq_ok, Run.pure_eq_ok] at h
    obtain ⟨_, _, _, _, _, _, rfl⟩ := h
    exact .refl w

theorem payOut_conserves {tokenVault vaultMint recipient : PerToken Pubkey} {amount : PerToken Nat}
    (h : w.payOut p clock tokenVault vaultMint recipient amount = .ok w') :
    Conserves mint w w' := by
  simp only [World.payOut, Run.bind_eq_ok] at h
  obtain ⟨w₁, h0, h1⟩ := h
  exact (transferFromPoolVaultToUser_conserves h0).trans (transferFromPoolVaultToUser_conserves h1)

/-- An account of the program, written over where it was before token instructions were
invoked. -/
theorem putKept_conserves {written : Pubkey → Prop} (hold : w.account key = some account)
    (hplain : Plain account) (hf : Frame written (fun _ => True) w w') (hnot : ¬written key)
    (hnew : Plain account') : Conserves mint w' (w'.put key account') := by
  refine putPlain_conserves ?_ hnew
  have hne : ∀ t, account ≠ .token t := by
    rintro t rfl
    cases hplain
  intro a ha
  rw [hf.kept _ _ hold hne hnot, Option.some.injEq] at ha
  rwa [← ha]

theorem collectFee_conserves {a : CollectFee p} {feeOwner : AmmConfig → Pubkey}
    {fees : PoolState → PerToken Nat} {write : PoolState → PerToken Nat → PoolState}
    {requested : PerToken Nat} (h : w.collectFee clock a feeOwner fees write requested = .ok w') :
    Conserves mint w w' := by
  simp only [World.collectFee, Run.bind_eq_ok, Prod.exists, poolState_eq_ok] at h
  obtain ⟨keys, s, hkey, _, _, _, _, -, _, _, _, _, _, -, _, -, lowered, -, hpay⟩ := h
  have hf : Frame (fun _ => False) (fun _ => True) w w := .refl w
  have hput : ∀ s', Conserves mint w (w.put a.poolState (.poolState keys s')) :=
    fun s' => putKept_conserves hkey rfl hf id rfl
  exact (hput _).trans (payOut_conserves hpay)

theorem collectCreatorFee_conserves {a : CollectCreatorFee p} (hnative : ¬IsNative mint)
    (h : w.collectCreatorFee clock a = .ok w') : Conserves mint w w' := by
  simp only [World.collectCreatorFee, Run.bind_eq_ok, Prod.exists, poolState_eq_ok,
    Run.pure_eq_ok] at h
  obtain ⟨keys, s, hkey, _, _, _, _, _, _, _, _, _, w₁, h0, w₂, h1, _, _, w₃, hpay, rfl⟩ := h
  obtain ⟨-, -, hf0⟩ := initAssociated_spec h0
  obtain ⟨-, -, hf1⟩ := initAssociated_spec h1
  have hf : Frame (fun _ => False) (fun _ => True) w w₃ :=
    ((hf0 _ _).trans (hf1 _ _)).trans (payOut_frame hpay).coarse
  exact (((initAssociated_conserves hnative h0).trans (initAssociated_conserves hnative h1)).trans
    (payOut_conserves hpay)).trans (putKept_conserves hkey rfl hf id rfl)

theorem deposit_conserves {a : ChangeLiquidity p} {k max0 max1 : Nat} {event : LpChangeEvent}
    (h : w.deposit clock a k max0 max1 = .ok (w', event)) : Conserves mint w w' := by
  simp only [World.deposit, Run.bind_eq_ok, Prod.exists, poolState_eq_ok, mint_eq_ok,
    Run.pure_eq_ok, Prod.mk.injEq] at h
  obtain ⟨keys, s, hkey, _, -, _, -, _, -, _, _, -, lp, hlp, _, -, _, -, _, -, amount, e, -, w₁, h0,
    w₂, h1, _, -, w₃, h2, rfl, -⟩ := h
  have hne : a.poolState ≠ a.lpMint := ne_of_account hkey hlp (by simp)
  have hf : Frame (· = a.lpMint) (fun _ => True) w w₃ :=
    ((transferFromUserToPoolVault_frame h0).coarse.trans
      (transferFromUserToPoolVault_frame h1).coarse).trans (tokenMintTo_frame h2)
  exact (((transferFromUserToPoolVault_conserves h0).trans
    (transferFromUserToPoolVault_conserves h1)).trans (tokenMintTo_conserves h2)).trans
    (putKept_conserves hkey rfl hf hne rfl)

theorem withdraw_conserves {a : ChangeLiquidity p} {k min0 min1 : Nat} {event : LpChangeEvent}
    (h : w.withdraw clock a k min0 min1 = .ok (w', event)) : Conserves mint w w' := by
  simp only [World.withdraw, Run.bind_eq_ok, Prod.exists, poolState_eq_ok, mint_eq_ok,
    Run.pure_eq_ok, Prod.mk.injEq] at h
  obtain ⟨keys, s, hkey, _, -, _, -, _, -, _, _, -, lp, hlp, _, -, _, -, _, -, amount, e, -, _, -,
    w₁, h0, w₂, h1, rfl, -⟩ := h
  have hne : a.poolState ≠ a.lpMint := ne_of_account hkey hlp (by simp)
  have hf : Frame (· = a.lpMint) (fun _ => True) w w₂ :=
    (tokenBurn_frame h0).coarse.trans (payOut_frame h1).coarse
  exact ((tokenBurn_conserves h0).trans (payOut_conserves h1)).trans
    (putKept_conserves hkey rfl hf hne rfl)

/-- What the constraints of a swap found. -/
theorem swapAccounts_found {a : Swap p} {s : SwapAccounts} (h : w.swapAccounts clock a = .ok s) :
    (∃ keys state, w.account a.poolState = some (.poolState keys state)) ∧
      ∃ o, w.account a.observationState = some (.observationState o) := by
  simp only [World.swapAccounts, Run.bind_eq_ok, Prod.exists, poolState_eq_ok,
    observationState_eq_ok] at h
  obtain ⟨_, -, keys, state, hkey, _, -, _, -, _, -, _, -, _, -, _, -, o, ho, -⟩ := h
  exact ⟨⟨keys, state, hkey⟩, o, ho⟩

theorem settleSwap_conserves {a : Swap p} {s : SwapAccounts} {q : SwapQuote} {receipt : SwapReceipt}
    (hs : w.swapAccounts clock a = .ok s) (h : w.settleSwap a s q = .ok (w', receipt)) :
    Conserves mint w w' := by
  obtain ⟨⟨keys, state, hkey⟩, o, hobs⟩ := swapAccounts_found hs
  simp only [World.settleSwap, Run.bind_eq_ok, handler_eq_ok, Run.pure_eq_ok, Prod.mk.injEq] at h
  obtain ⟨_, -, _, -, _, -, _, -, _, -, w₁, h0, w₂, h1, o', -, rfl, -⟩ := h
  have hf : Frame (fun _ => False) (fun _ => True) w w₂ :=
    (transferFromUserToPoolVault_frame h0).coarse.trans
      (transferFromPoolVaultToUser_frame h1).coarse
  have hwrite : Frame (· = a.observationState) (fun _ => True) w
      (w₂.put a.observationState (.observationState o')) := by
    refine (hf.mono (fun _ => False.elim) fun _ => id).trans (put_frame ?_ (.of_program rfl))
    intro t ht
    rw [hf.kept _ _ hobs (by simp) id] at ht
    cases ht
  have hobserved : Conserves mint w₂ (w₂.put a.observationState (.observationState o')) :=
    putKept_conserves hobs rfl hf id rfl
  exact (((transferFromUserToPoolVault_conserves h0).trans
    (transferFromPoolVaultToUser_conserves h1)).trans hobserved).trans
    (putKept_conserves hkey rfl hwrite (ne_of_account hkey hobs (by simp)) rfl)

/-! ## Creating a pool -/

/-- Transfers are between accounts that exist. -/
theorem transferFromUserToPoolVault_none
    (h : w.transferFromUserToPoolVault epoch authority source destination mintKey amount = .ok w')
    (hnone : w.account key = none) : w'.account key = none := by
  unfold World.transferFromUserToPoolVault at h
  split at h
  · obtain rfl := Run.pure_eq_ok.mp h
    exact hnone
  · obtain ⟨_, _, _, _, hs, hr, -⟩ := transferChecked_spec h
    rwa [transferChecked_other h]
    · rintro rfl
      rw [hnone] at hs
      cases hs
    · rintro rfl
      rw [hnone] at hr
      cases hr

theorem tokenMintTo_none (h : w.tokenMintTo authority mintKey destination amount = .ok w')
    (hnone : w.account key = none) : w'.account key = none := by
  simp only [World.tokenMintTo, Run.bind_eq_ok, token_eq_ok, mint_eq_ok, Run.pure_eq_ok] at h
  obtain ⟨receiver, hr, a, ha, _, -, _, -, _, -, _, -, _, -, rfl⟩ := h
  rwa [put_of_ne, put_of_ne]
  · rintro rfl
    rw [hnone] at hr
    cases hr
  · rintro rfl
    rw [hnone] at ha
    cases ha

theorem chargeCreatePoolFee_none {payer : Pubkey} {fee : Nat}
    (h : w.chargeCreatePoolFee payer fee = .ok w') (hnone : w.account key = none) :
    w'.account key = none := by
  rcases chargeCreatePoolFee_cases h with ⟨-, rfl⟩ | ⟨-, t, amount, ht, -, -, -, haccount⟩
  · exact hnone
  · rw [haccount, put_of_ne, hnone]
    rintro rfl
    rw [hnone] at ht
    cases ht

/-- The fee for a pool is paid into wrapped SOL. -/
theorem chargeCreatePoolFee_conserves {payer : Pubkey} {fee : Nat} (hnative : ¬IsNative mint)
    (h : w.chargeCreatePoolFee payer fee = .ok w') : Conserves mint w w' := by
  rcases chargeCreatePoolFee_cases h with ⟨-, rfl⟩ | ⟨-, t, amount, ht, hmint, -, -, haccount⟩
  · exact .refl _
  · have hne : t.mint ≠ mint := by
      rintro rfl
      exact hnative (.inl hmint)
    refine Conserves.congr (put_conserves ?_) haccount
    rw [issued_put_token ht, ht]
    simp [held, hne]

theorem initializeAccounts_conserves {a : Initialize p} (hnative : ¬IsNative mint)
    (h : w.initializeAccounts a = .ok w') : Conserves mint w w' := by
  simp only [World.initializeAccounts, Run.bind_eq_ok] at h
  obtain ⟨_, -, _, -, _, -, _, -, _, -, w₁, h1, _, -, _, -, _, -, w₂, h2, _, -, _, -, _, -, h3⟩ := h
  exact ((create_conserves h1 rfl rfl).trans
    (createTokenAccount_conserves hnative h2)).trans (create_conserves h3 rfl rfl)

theorem initializePool_conserves {a : Initialize p} {poolCreator : Pubkey}
    {creatorFeeOn : CreatorFeeOn} {enableCreatorFee : Bool} {args : InitializeArgs}
    (hnative : ¬IsNative mint)
    (h : w.initializePool clock a poolCreator creatorFeeOn enableCreatorFee args = .ok w') :
    Conserves mint w w' := by
  simp only [World.initializePool, Run.bind_eq_ok, World.createPool, check_eq_ok,
    Option.isNone_iff_eq_none, Run.pure_eq_ok] at h
  obtain ⟨_, -, _, -, _, -, w₃, h3, _, -, _, -, w₄, h4, w₅, h5, _, ⟨_, hnone, -⟩, w₆, h6, w₇, h7, _,
    -, _, -, _, -, _, -, _, -, _, -, w₈, h8, w₉, h9, rfl⟩ := h
  have hnone₉ : w₉.account a.poolState = none :=
    chargeCreatePoolFee_none h9 (tokenMintTo_none h8
      (transferFromUserToPoolVault_none h7 (transferFromUserToPoolVault_none h6 hnone)))
  have hput : ∀ s, Conserves mint w₉ (w₉.put a.poolState (.poolState (Initialize.keys a) s)) := by
    intro s
    refine putPlain_conserves ?_ rfl
    intro account haccount
    rw [hnone₉] at haccount
    cases haccount
  exact (((((((initializeAccounts_conserves hnative h3).trans
    (createTokenAccount_conserves hnative h4)).trans
    (createTokenAccount_conserves hnative h5)).trans
    (transferFromUserToPoolVault_conserves h6)).trans
    (transferFromUserToPoolVault_conserves h7)).trans (tokenMintTo_conserves h8)).trans
    (chargeCreatePoolFee_conserves hnative h9)).trans (hput _)

/-! ## The program -/

/-- **Every instruction conserves every token** but wrapped SOL. -/
theorem step_conserves (hnative : ¬IsNative mint) (h : w.step clock call = .ok (w', emitted)) :
    Conserves mint w w' := by
  cases call with
  | createAmmConfig a index trade protocol fund poolFee creator =>
    simp only [World.step, silent, World.createAmmConfig, Run.bind_eq_ok, Run.pure_eq_ok,
      Prod.mk.injEq] at h
    obtain ⟨_, ⟨_, -, c, -, hcreate⟩, rfl, -⟩ := h
    exact create_conserves hcreate rfl rfl
  | updateAmmConfig a param value remaining =>
    simp only [World.step, silent, World.updateAmmConfig, Run.bind_eq_ok, ammConfig_eq_ok,
      Run.pure_eq_ok, Prod.mk.injEq] at h
    obtain ⟨_, ⟨c, hc, c', -, rfl⟩, rfl, -⟩ := h
    have hf : Frame (fun _ => False) (fun _ => True) w w := .refl w
    exact putKept_conserves hc rfl hf id rfl
  | createPermissionPda a =>
    simp only [World.step, silent, World.createPermissionPda, Run.bind_eq_ok, Run.pure_eq_ok,
      Prod.mk.injEq] at h
    obtain ⟨_, ⟨_, -, _, -, hcreate⟩, rfl, -⟩ := h
    exact create_conserves hcreate rfl rfl
  | closePermissionPda a =>
    simp only [World.step, silent, World.closePermissionPda, Run.bind_eq_ok, permission_eq_ok,
      Run.pure_eq_ok, Prod.mk.injEq] at h
    obtain ⟨_, ⟨_, hpermission, _, -, _, -, rfl⟩, rfl, -⟩ := h
    refine remove_conserves ?_
    intro account haccount
    rw [hpermission, Option.some.injEq] at haccount
    subst haccount
    rfl
  | initializePermissionless a args =>
    simp only [World.step, silent, World.initializePermissionless, Run.bind_eq_ok, Run.pure_eq_ok,
      Prod.mk.injEq] at h
    obtain ⟨_, h, rfl, -⟩ := h
    exact initializePool_conserves hnative h
  | initializeWithPermission a creator permission creatorFeeOn args =>
    simp only [World.step, silent, World.initializeWithPermission, Run.bind_eq_ok, Run.pure_eq_ok,
      Prod.mk.injEq] at h
    obtain ⟨_, ⟨_, -, _, -, h⟩, rfl, -⟩ := h
    exact initializePool_conserves hnative h
  | updatePoolStatus a status =>
    simp only [World.step, silent, World.updatePoolStatus, Run.bind_eq_ok, Prod.exists,
      poolState_eq_ok, Run.pure_eq_ok, Prod.mk.injEq] at h
    obtain ⟨_, ⟨keys, s, hkey, _, -, _, -, rfl⟩, rfl, -⟩ := h
    have hf : Frame (fun _ => False) (fun _ => True) w w := .refl w
    exact putKept_conserves hkey rfl hf id rfl
  | updatePoolOracle a bid ask exponent fee =>
    simp only [World.step, reporting, World.updatePoolOracle, Run.bind_eq_ok, Prod.exists,
      poolState_eq_ok, Run.pure_eq_ok, Prod.mk.injEq] at h
    obtain ⟨_, _, ⟨keys, s, hkey, _, -, _, -, _, -, _, -, rfl, -⟩, rfl, -⟩ := h
    have hf : Frame (fun _ => False) (fun _ => True) w w := .refl w
    exact putKept_conserves hkey rfl hf id rfl
  | setOracleKeeper a newKeeper =>
    simp only [World.step, silent, World.setOracleKeeper, Run.bind_eq_ok, Prod.exists,
      poolState_eq_ok, Run.pure_eq_ok, Prod.mk.injEq] at h
    obtain ⟨_, ⟨keys, s, hkey, _, -, rfl⟩, rfl, -⟩ := h
    have hf : Frame (fun _ => False) (fun _ => True) w w := .refl w
    exact putKept_conserves hkey rfl hf id rfl
  | collectProtocolFee a requested =>
    simp only [World.step, silent, Run.bind_eq_ok, Run.pure_eq_ok, Prod.mk.injEq] at h
    obtain ⟨_, h, rfl, -⟩ := h
    exact collectFee_conserves h
  | collectFundFee a requested =>
    simp only [World.step, silent, Run.bind_eq_ok, Run.pure_eq_ok, Prod.mk.injEq] at h
    obtain ⟨_, h, rfl, -⟩ := h
    exact collectFee_conserves h
  | collectCreatorFee a =>
    simp only [World.step, silent, Run.bind_eq_ok, Run.pure_eq_ok, Prod.mk.injEq] at h
    obtain ⟨_, h, rfl, -⟩ := h
    exact collectCreatorFee_conserves hnative h
  | deposit a k max0 max1 =>
    simp only [World.step, reporting, Run.bind_eq_ok, Prod.exists, Run.pure_eq_ok,
      Prod.mk.injEq] at h
    obtain ⟨_, _, h, rfl, -⟩ := h
    exact deposit_conserves h
  | withdraw a k min0 min1 =>
    simp only [World.step, reporting, Run.bind_eq_ok, Prod.exists, Run.pure_eq_ok,
      Prod.mk.injEq] at h
    obtain ⟨_, _, h, rfl, -⟩ := h
    exact withdraw_conserves h
  | swapBaseInput a amountIn minimum =>
    simp only [World.step, reporting, World.swapBaseInput, Run.bind_eq_ok, Prod.exists,
      Run.pure_eq_ok, Prod.mk.injEq] at h
    obtain ⟨_, _, ⟨s, hs, q, -, h⟩, rfl, -⟩ := h
    exact settleSwap_conserves hs h
  | swapBaseOutput a maximum amountOut =>
    simp only [World.step, reporting, World.swapBaseOutput, Run.bind_eq_ok, Prod.exists,
      Run.pure_eq_ok, Prod.mk.injEq] at h
    obtain ⟨_, _, ⟨s, hs, q, -, h⟩, rfl, -⟩ := h
    exact settleSwap_conserves hs h

/-- The LP mint of a pool. -/
def IsPoolLpMint (w : World) (k : Pubkey) : Prop :=
  ∃ key keys s, w.account key = some (.poolState keys s) ∧ k = keys.lpMint

/-- No mint but that of LP tokens is touched, and none becomes one. -/
theorem outcome_mint (h : Outcome p w w' clock call emitted) {a : MintAccount}
    (hmint : w.account mint = some (.mint a)) (hnot : ¬IsPoolLpMint w mint) :
    w'.account mint = some (.mint a) ∧ ¬IsPoolLpMint w' mint := by
  refine ⟨?_, ?_⟩
  · cases h with
    | @pool key keys m m' hm hcall hserved hacts =>
      refine hserved.frame.kept _ _ hmint (by simp) ?_
      rintro (rfl | rfl | rfl)
      · rw [hm.pool] at hmint
        cases hmint
      · exact hnot ⟨key, keys, _, hm.pool, rfl⟩
      · rw [hm.observation] at hmint
        cases hmint
    | creation hinit hcreated hsigner =>
      refine hcreated.served.frame.kept _ _ hmint (by simp) ?_
      intro hwritten
      rw [hcreated.written_none _ hwritten] at hmint
      cases hmint
    | config hcall hc hc' hput =>
      rw [hput, put_of_ne (ne_of_account hmint hc (by simp))]
      exact hmint
    | elsewhere hold hnew hf =>
      refine hf.kept _ _ hmint (by simp) ?_
      rintro rfl
      obtain ⟨authority, heq⟩ := hold _ hmint
      cases heq
  · rintro ⟨key, keys, s, hkey, rfl⟩
    rcases outcome_old h hkey with ⟨s', hold⟩ | ⟨a₁, m, rfl, rfl, -, hcreated⟩
    · exact hnot ⟨key, keys, s', hold, rfl⟩
    · rw [hcreated.written_none _ (.inr (.inl rfl))] at hmint
      cases hmint

/-- **Conservation.** Over any run of calls the amounts held of any token but wrapped SOL in
all accounts, with the fees withheld in them, change exactly as the supply of its mint does,
and a mint changes in nothing unless it is that of the LP tokens of a pool. -/
theorem conserved (w w' : World) (hw : w.Reachable p seizable)
    (hrun : ReflTransGen (Called p allowed) w w') (mint : Pubkey) :
    (¬IsNative mint → Conserves mint w w') ∧
      ∀ a, w.account mint = some (.mint a) → ¬IsPoolLpMint w mint →
        w'.account mint = some (.mint a) := by
  have hall : Wired p seizable w' ∧ (¬IsNative mint → Conserves mint w w') ∧
      ∀ a, w.account mint = some (.mint a) → ¬IsPoolLpMint w mint →
        w'.account mint = some (.mint a) ∧ ¬IsPoolLpMint w' mint := by
    induction hrun with
    | refl => exact ⟨reachable_wired hw, fun _ => .refl w, fun _ ha hnot => ⟨ha, hnot⟩⟩
    | tail _ hlast ih =>
      obtain ⟨hwired, hconserves, hkept⟩ := ih
      obtain ⟨clock, call, emitted, -, hstep⟩ := hlast
      have houtcome := step_outcome hwired hstep
      refine ⟨outcome_wired hwired houtcome, ?_, ?_⟩
      · intro hnative
        exact (hconserves hnative).trans (step_conserves hnative hstep)
      · intro a ha hnot
        obtain ⟨ha', hnot'⟩ := hkept a ha hnot
        exact outcome_mint houtcome ha' hnot'
  exact ⟨hall.2.1, fun a ha hnot => (hall.2.2 a ha hnot).1⟩

/-- From before the pools to after a trade, whose first token is no LP token. -/
theorem conserved_exampleTrades :
    Conserves 10 exampleGenesis (replay stepAt exampleGenesis (exampleCalls ++ exampleTrades)) ∧
      (replay stepAt exampleGenesis (exampleCalls ++ exampleTrades)).account 10 =
        some (.mint ⟨Mint.plain 6, 6000000000, none, none⟩) := by
  obtain ⟨hconserves, hkept⟩ := conserved exampleGenesis _
    ⟨exampleGenesis, exampleGenesis_genesis, .refl⟩
    (replay_called (fun _ => True) (exampleCalls ++ exampleTrades) (fun _ _ => trivial)
      exampleGenesis) 10
  refine ⟨hconserves (by decide), hkept _ rfl ?_⟩
  rintro ⟨key, keys, s, hkey, -⟩
  cases exampleGenesis_genesis.owned _ _ hkey

end NomadAmm.Soundness.Conservation

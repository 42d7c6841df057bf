import NomadAmm.Soundness.Frames
import NomadAmm.Soundness.Solvency

/-! When the accounts of a pool are a market. Vaults belong to the authority, which signs
for no user, so nobody's transfer can take from one unless the token has a permanent
delegate, and what another pool's calls can do to one is to add to it. -/

namespace NomadAmm.Soundness.Representation

open Lib.Checked Lib.Transition Exec Run World Instructions
open Soundness.Frames Soundness.Ledger

variable {p : Addresses} {w w' : World} {key : Pubkey} {keys : PoolKeys} {m : Market}

/-- A token account of the authority that nobody else may spend from. -/
def IsVault (p : Addresses) (w : World) (key mint : Pubkey) (amount : Nat) : Prop :=
  ∃ t, w.account key = some (.token t) ∧ t.owner = p.authority ∧ t.mint = mint ∧
    t.delegate = none ∧ t.amount = amount

def IsLpMint (p : Addresses) (w : World) (key : Pubkey) (supply : Nat) : Prop :=
  ∃ a, w.account key = some (.mint a) ∧ a.mintAuthority = some p.authority ∧ a.supply = supply

/-- **The accounts of the pool at `key` are the market `m`.** -/
structure Holds (p : Addresses) (w : World) (key : Pubkey) (keys : PoolKeys) (m : Market) :
    Prop where
  pool : w.account key = some (.poolState keys m.poolState)
  config : w.account keys.ammConfig = some (.ammConfig m.ammConfig)
  vault : ∀ side, IsVault p w (keys.vault.get side) (keys.tokenMint.get side) (m.vault.get side)
  lpMint : IsLpMint p w keys.lpMint m.lpMintSupply
  observation : w.account keys.observationKey = some (.observationState m.observationState)
  mints_ne : keys.tokenMint.token0 ≠ keys.tokenMint.token1
  lpMint_ne : ∀ side, keys.tokenMint.get side ≠ keys.lpMint

/-- Neither mint of a pool has a permanent delegate. -/
def Undelegated (w : World) (keys : PoolKeys) : Prop :=
  ∀ side a, w.account (keys.tokenMint.get side) = some (.mint a) → a.permanentDelegate = none

/-- A mint as it is read, where there is one. -/
def mintAt (w : World) (key : Pubkey) : Mint :=
  match w.account key with
  | some (.mint a) => a.mint
  | _ => Mint.plain 0

/-- The mints of a pool. -/
def mintsOf (w : World) (keys : PoolKeys) : PerToken Mint :=
  ⟨mintAt w keys.tokenMint.token0, mintAt w keys.tokenMint.token1⟩

theorem mintAt_eq {a : MintAccount} (h : w.account key = some (.mint a)) :
    mintAt w key = a.mint := by
  simp [mintAt, h]

theorem mintsOf_get (side : TokenSide) :
    (mintsOf w keys).get side = mintAt w (keys.tokenMint.get side) := by
  cases side <;> rfl

theorem eq_mintsOf {mint : PerToken Mint}
    (h : ∀ side, ∃ a, w.account (keys.tokenMint.get side) = some (.mint a) ∧
      a.mint = mint.get side) : mint = mintsOf w keys := by
  refine PerToken.ext ?_
  intro side
  obtain ⟨a, ha, heq⟩ := h side
  rw [mintsOf_get, mintAt_eq ha, heq]

theorem Holds.mints_get_ne (h : Holds p w key keys m) {side side' : TokenSide}
    (hne : side ≠ side') : keys.tokenMint.get side ≠ keys.tokenMint.get side' := by
  cases side with
  | token0 =>
    cases side' with
    | token0 => exact absurd rfl hne
    | token1 => exact h.mints_ne
  | token1 =>
    cases side' with
    | token0 => exact h.mints_ne.symm
    | token1 => exact absurd rfl hne

/-- The two vaults hold different tokens, so they are different accounts. -/
theorem Holds.vaults_ne (h : Holds p w key keys m) {side side' : TokenSide} (hne : side ≠ side') :
    keys.vault.get side ≠ keys.vault.get side' := by
  intro heq
  obtain ⟨t, hkey, -, hmint, -⟩ := h.vault side
  obtain ⟨t', hkey', -, hmint', -⟩ := h.vault side'
  rw [heq, hkey', Option.some.injEq, Account.token.injEq] at hkey
  subst hkey
  exact h.mints_get_ne hne (hmint.symm.trans hmint')

/-- A vault is named by its side. -/
theorem Holds.sideOf_eq_some (h : Holds p w key keys m) {vault : Pubkey} {side : TokenSide} :
    keys.sideOf vault = some side ↔ vault = keys.vault.get side := by
  have hne : keys.vault.get .token0 ≠ keys.vault.get .token1 := h.vaults_ne (by decide)
  change keys.vault.token0 ≠ keys.vault.token1 at hne
  unfold PoolKeys.sideOf
  by_cases h0 : vault = keys.vault.token0
  · cases side <;> simp [h0, PerToken.get, hne]
  · by_cases h1 : vault = keys.vault.token1
    · cases side <;> simp [h1, PerToken.get, hne.symm]
    · cases side <;> simp [h0, h1, PerToken.get]

theorem IsVault.unique {k mint : Pubkey} {held held₂ : Nat} (h : IsVault p w k mint held)
    (h₂ : IsVault p w k mint held₂) : held = held₂ := by
  obtain ⟨t, ht, -, -, -, rfl⟩ := h
  obtain ⟨t₂, ht₂, -, -, -, rfl⟩ := h₂
  rw [ht, Option.some.injEq, Account.token.injEq] at ht₂
  rw [ht₂]

theorem IsLpMint.unique {k : Pubkey} {supply supply₂ : Nat} (h : IsLpMint p w k supply)
    (h₂ : IsLpMint p w k supply₂) : supply = supply₂ := by
  obtain ⟨a, ha, -, rfl⟩ := h
  obtain ⟨a₂, ha₂, -, rfl⟩ := h₂
  rw [ha, Option.some.injEq, Account.mint.injEq] at ha₂
  rw [ha₂]

/-- What the account of a pool says is what its market has. -/
theorem Holds.poolState_eq {keys₁ : PoolKeys} {s : PoolState} (h : Holds p w key keys m)
    (hkey : w.account key = some (.poolState keys₁ s)) : keys = keys₁ ∧ m.poolState = s := by
  have hpool := h.pool
  rw [hkey, Option.some.injEq, Account.poolState.injEq] at hpool
  exact ⟨hpool.1.symm, hpool.2.symm⟩

/-- A pool is one market. -/
theorem Holds.unique {m₂ : Market} (h : Holds p w key keys m) (h₂ : Holds p w key keys m₂) :
    m = m₂ := by
  have hpool := h.pool.symm.trans h₂.pool
  have hconfig := h.config.symm.trans h₂.config
  have hobs := h.observation.symm.trans h₂.observation
  have hvault : m.vault = m₂.vault :=
    PerToken.ext fun side => (h.vault side).unique (h₂.vault side)
  have hsupply := h.lpMint.unique h₂.lpMint
  cases m
  cases m₂
  simp_all

/-- What a call on a pool may write besides token accounts. -/
def writes (key : Pubkey) (keys : PoolKeys) (k : Pubkey) : Prop :=
  k = key ∨ k = keys.lpMint ∨ k = keys.observationKey

/-! ## Which accounts are which -/

theorem ne_of_account {k k' : Pubkey} {a b : Account} (h : w.account k = some a)
    (h' : w.account k' = some b) (hab : a ≠ b) : k ≠ k' := by
  rintro rfl
  rw [h, Option.some.injEq] at h'
  exact hab h'

/-- The accounts of a pool are of different kinds. -/
theorem Holds.config_ne_written (h : Holds p w key keys m) : ¬writes key keys keys.ammConfig := by
  obtain ⟨a, ha, -⟩ := h.lpMint
  intro hw
  rcases hw with heq | heq | heq
  · exact ne_of_account h.config h.pool (by simp) heq
  · exact ne_of_account h.config ha (by simp) heq
  · exact ne_of_account h.config h.observation (by simp) heq

theorem Holds.key_ne_observation (h : Holds p w key keys m) : keys.observationKey ≠ key :=
  ne_of_account h.observation h.pool (by simp)

theorem Holds.key_ne_lpMint (h : Holds p w key keys m) : keys.lpMint ≠ key := by
  obtain ⟨a, ha, -⟩ := h.lpMint
  exact ne_of_account ha h.pool (by simp)

theorem Holds.observation_ne_lpMint (h : Holds p w key keys m) :
    keys.observationKey ≠ keys.lpMint := by
  obtain ⟨a, ha, -⟩ := h.lpMint
  exact ne_of_account h.observation ha (by simp)

theorem Holds.not_token (h : Holds p w key keys m) (t : TokenAccount) :
    w.account key ≠ some (.token t) := by
  intro ht
  rw [h.pool] at ht
  cases ht

/-! ## One vault through a transfer -/

section

variable {epoch amount held : Nat} {authority source destination mintKey vault mint : Pubkey}

/-- Where no permanent delegate can, only the authority may take from a vault. -/
theorem IsVault.not_spends (hv : IsVault p w vault mint held) (hauth : authority ≠ p.authority)
    (hnone : ∀ a, w.account mint = some (.mint a) → a.permanentDelegate = none) :
    ¬Spends w authority vault := by
  rintro ⟨t, ht, hmay⟩
  obtain ⟨t', ht', howner, hmint, hdelegate, -⟩ := hv
  rw [ht, Option.some.injEq, Account.token.injEq] at ht'
  subst ht'
  rcases hmay with heq | heq | ⟨a, ha, heq⟩
  · exact hauth (heq.symm.trans howner)
  · rw [hdelegate] at heq
    cases heq
  · rw [hnone a (hmint ▸ ha)] at heq
    cases heq

/-- An account a transfer does not touch. -/
theorem transferChecked_other
    (h : w.transferChecked epoch authority source destination mintKey amount = .ok w')
    (hs : key ≠ source) (hd : key ≠ destination) : w'.account key = w.account key := by
  obtain ⟨sender, receiver, mint, fee, -, -, -, -, -, -, -, h⟩ := transferChecked_spec h
  rcases h with ⟨-, haccount⟩ | ⟨-, credited, -, haccount⟩
  · rw [haccount]
  · rw [haccount, put_of_ne hd, put_of_ne hs]

/-- Who pays may spend. -/
theorem spends_of_transfer (h0 : amount ≠ 0)
    (h : w.transferFromUserToPoolVault epoch authority source destination mintKey amount = .ok w') :
    Spends w authority source := by
  unfold World.transferFromUserToPoolVault at h
  rw [if_neg h0] at h
  obtain ⟨sender, _, a, _, hs, -, ha, -, ⟨-, hmint⟩, -, hval, -⟩ := transferChecked_spec h
  exact spends_of_validate hs (hmint ▸ ha) hval

/-- A transfer into a vault, not out of it, posts what the transfer of the one pool posts. -/
theorem payIn_vault (hne : amount ≠ 0 → vault ≠ source) (hv : IsVault p w vault mint held)
    (h : w.transferFromUserToPoolVault epoch authority source vault mintKey amount = .ok w')
    {sender : TokenAccount} {mintAccount : MintAccount}
    (hs : w.account source = some (.token sender))
    (hm : w.account mintKey = some (.mint mintAccount)) :
    ∃ held', NomadAmm.transferFromUserToPoolVault mintAccount.mint epoch sender.amount held amount =
      .ok held' ∧ IsVault p w' vault mint held' := by
  unfold World.transferFromUserToPoolVault at h
  unfold NomadAmm.transferFromUserToPoolVault
  by_cases h0 : amount = 0
  · rw [if_pos h0] at h
    obtain rfl := Run.pure_eq_ok.mp h
    exact ⟨held, if_pos h0, hv⟩
  · rw [if_neg h0] at h
    obtain ⟨sender', receiver, mint', fee, hs', hr, hm', hle, -, hfee, -, h⟩ :=
      transferChecked_spec h
    rw [hs, Option.some.injEq, Account.token.injEq] at hs'
    rw [hm, Option.some.injEq, Account.mint.injEq] at hm'
    subst hs' hm'
    obtain ⟨t, hkey, howner, hmint, hnone, rfl⟩ := hv
    rw [hr, Option.some.injEq, Account.token.injEq] at hkey
    subst hkey
    rcases h with ⟨heq, -⟩ | ⟨-, credited, hc, haccount⟩
    · exact absurd heq.symm (hne h0)
    · obtain ⟨hfeele, hlt, -, rfl⟩ := credit_eq_ok.mp hc
      refine ⟨receiver.amount + (amount - fee), ?_, _, (congrFun haccount vault).trans put_self,
        howner, hmint, hnone, rfl⟩
      simp only [if_neg h0, arriving, Exec.bind_eq_ok, Exec.require_eq_ok, hfee, Except.ok.injEq,
        tokenCheck_eq_ok, checkedSub_eq_some, checkedAdd_eq_some]
      exact ⟨amount - fee, ⟨(), hle, fee, rfl, hfeele, rfl⟩, hlt, rfl⟩

/-- A vault of another token than the one transferred is left as it was. -/
theorem transfer_other (hv : IsVault p w vault mint held) (hne : mint ≠ mintKey)
    (h : w.transferFromUserToPoolVault epoch authority source destination mintKey amount = .ok w') :
    IsVault p w' vault mint held := by
  unfold World.transferFromUserToPoolVault at h
  split at h
  · obtain rfl := Run.pure_eq_ok.mp h
    exact hv
  · obtain ⟨sender, receiver, _, _, hs, hr, -, -, ⟨hsame, hmint⟩, -, -, -⟩ :=
      transferChecked_spec h
    obtain ⟨t, hkey, hrest⟩ := hv
    have hsrc : vault ≠ source := by
      rintro rfl
      rw [hs, Option.some.injEq, Account.token.injEq] at hkey
      subst hkey
      exact hne (hrest.2.1.symm.trans hmint)
    have hdst : vault ≠ destination := by
      rintro rfl
      rw [hr, Option.some.injEq, Account.token.injEq] at hkey
      subst hkey
      exact hne (hrest.2.1.symm.trans (hsame.symm.trans hmint))
    exact ⟨t, by rwa [transferChecked_other h hsrc hdst], hrest⟩

theorem payOut_other (hv : IsVault p w vault mint held) (hne : mint ≠ mintKey)
    (h : w.transferFromPoolVaultToUser epoch authority source destination mintKey amount = .ok w') :
    IsVault p w' vault mint held :=
  transfer_other hv hne h

/-- A transfer out of a vault posts what the transfer of the one pool posts. -/
theorem payOut_vault (hv : IsVault p w vault mint held)
    (h : w.transferFromPoolVaultToUser epoch p.authority vault destination mintKey amount =
      .ok w') :
    ∃ held', NomadAmm.transferFromPoolVaultToUser held amount (decide (destination = vault)) =
      .ok held' ∧ IsVault p w' vault mint held' := by
  unfold World.transferFromPoolVaultToUser at h
  by_cases h0 : amount = 0
  · rw [if_pos h0] at h
    obtain rfl := Run.pure_eq_ok.mp h
    exact ⟨held, by simp [NomadAmm.transferFromPoolVaultToUser, h0], hv⟩
  · rw [if_neg h0] at h
    obtain ⟨sender, receiver, mint', fee, hs, hr, -, hle, -, -, -, h⟩ := transferChecked_spec h
    obtain ⟨t, hkey, howner, hmint, hnone, rfl⟩ := hv
    rw [hs, Option.some.injEq, Account.token.injEq] at hkey
    subst hkey
    rcases h with ⟨rfl, haccount⟩ | ⟨hne, credited, -, haccount⟩
    · refine ⟨sender.amount, ?_, _, haccount ▸ hs, howner, hmint, hnone, rfl⟩
      rw [transferFromPoolVaultToUser_eq_ok]
      exact ⟨hle, by simp⟩
    · obtain ⟨hdmint, hdowner, hdamount, -, hddel⟩ :=
        debit_spec sender mint'.permanentDelegate p.authority amount
      refine ⟨sender.amount - amount, ?_, _, ?_, hdowner.trans howner, hdmint.trans hmint,
        ?_, hdamount⟩
      · rw [transferFromPoolVaultToUser_eq_ok]
        simp only [hne.symm, decide_false, Bool.false_eq_true, if_false]
        exact ⟨hle, by omega⟩
      · rw [haccount, put_of_ne hne, put_self]
      · rcases hddel with hsame | hgone
        · exact hsame.trans hnone
        · exact hgone

/-- A write elsewhere. -/
theorem IsVault.put {account : Account} (hv : IsVault p w vault mint held)
    (hold : ∀ t, w.account key ≠ some (.token t)) :
    IsVault p (w.put key account) vault mint held := by
  obtain ⟨t, hkey, hrest⟩ := hv
  refine ⟨t, ?_, hrest⟩
  rwa [put_of_ne]
  rintro rfl
  exact hold t hkey

theorem IsLpMint.put {account : Account} {supply : Nat} (hm : IsLpMint p w mintKey supply)
    (hne : mintKey ≠ key) : IsLpMint p (w.put key account) mintKey supply := by
  obtain ⟨a, hkey, hrest⟩ := hm
  exact ⟨a, by rwa [put_of_ne hne], hrest⟩

/-- Minting reaches the supply of the one pool, and no vault but by name. -/
theorem mintTo_lpMint {supply : Nat} (hm : IsLpMint p w mintKey supply)
    (h : w.tokenMintTo authority mintKey destination amount = .ok w') :
    ∃ supply', NomadAmm.tokenMintTo supply amount = .ok supply' ∧
      IsLpMint p w' mintKey supply' := by
  simp only [World.tokenMintTo, Run.bind_eq_ok, token_eq_ok, mint_eq_ok, handler_eq_ok,
    check_eq_ok, Run.pure_eq_ok] at h
  obtain ⟨receiver, hr, a, ha, _, _, _, _, _, _, _, _, supply', hs, rfl⟩ := h
  obtain ⟨a', ha', hauthority, rfl⟩ := hm
  rw [ha, Option.some.injEq, Account.mint.injEq] at ha'
  subst ha'
  exact ⟨supply', hs, _, put_self, hauthority, rfl⟩

theorem burn_lpMint {supply : Nat} (hm : IsLpMint p w mintKey supply) {holder : TokenAccount}
    (hh : w.account source = some (.token holder))
    (h : w.tokenBurn authority mintKey source amount = .ok w') :
    ∃ supply', NomadAmm.tokenBurn supply holder.amount amount = .ok supply' ∧
      IsLpMint p w' mintKey supply' := by
  simp only [World.tokenBurn, Run.bind_eq_ok, token_eq_ok, mint_eq_ok, handler_eq_ok,
    check_eq_ok, Run.pure_eq_ok] at h
  obtain ⟨holder', hh', a, ha, _, _, _, _, supply', hs, _, _, rfl⟩ := h
  rw [hh, Option.some.injEq, Account.token.injEq] at hh'
  subst hh'
  obtain ⟨a', ha', hauthority, rfl⟩ := hm
  rw [ha, Option.some.injEq, Account.mint.injEq] at ha'
  subst ha'
  exact ⟨supply', hs, _, put_self, hauthority, rfl⟩

/-- LP tokens are minted into and burned from accounts of users. -/
theorem IsVault.mintTo (hv : IsVault p w vault mint held) (hne : vault ≠ destination)
    (h : w.tokenMintTo authority mintKey destination amount = .ok w') :
    IsVault p w' vault mint held := by
  simp only [World.tokenMintTo, Run.bind_eq_ok, token_eq_ok, mint_eq_ok, handler_eq_ok,
    check_eq_ok, Run.pure_eq_ok] at h
  obtain ⟨receiver, -, a, ha, _, _, _, _, _, _, _, _, supply', _, rfl⟩ := h
  obtain ⟨t, hkey, hrest⟩ := hv
  have hmint : vault ≠ mintKey := by
    rintro rfl
    rw [ha] at hkey
    cases hkey
  exact ⟨t, by rwa [put_of_ne hmint, put_of_ne hne], hrest⟩

theorem IsVault.burn (hv : IsVault p w vault mint held) (hne : vault ≠ source)
    (h : w.tokenBurn authority mintKey source amount = .ok w') :
    IsVault p w' vault mint held := by
  simp only [World.tokenBurn, Run.bind_eq_ok, token_eq_ok, mint_eq_ok, handler_eq_ok,
    check_eq_ok, Run.pure_eq_ok] at h
  obtain ⟨holder, hh, a, ha, _, _, _, _, supply', _, _, _, rfl⟩ := h
  obtain ⟨t, hkey, hrest⟩ := hv
  have hmint : vault ≠ mintKey := by
    rintro rfl
    rw [ha] at hkey
    cases hkey
  exact ⟨t, by rwa [put_of_ne hmint, put_of_ne hne], hrest⟩

/-- A token account of the authority stays one, with whatever is in it. -/
theorem IsVault.of_frame {written debited : Pubkey → Prop} (hv : IsVault p w vault mint held)
    (hf : Frame written debited w w') :
    ∃ held', IsVault p w' vault mint held' ∧ (¬debited vault → held ≤ held') ∧
      (held < 2 ^ 64 → held' < 2 ^ 64) := by
  obtain ⟨t, ht, howner, hmint, hnone, rfl⟩ := hv
  obtain ⟨t', ht', hmint', howner', hdelegate, hle, hlt⟩ := hf.token _ _ ht
  have hnone' : t'.delegate = none := by
    rcases hdelegate with hsame | hgone
    · exact hsame.trans hnone
    · exact hgone
  exact ⟨t'.amount, ⟨t', ht', howner'.trans howner, hmint'.trans hmint, hnone', rfl⟩, hle, hlt⟩

end

/-! ## The vaults of an instruction -/

/-- The constraints let through the vaults and mints of the pool only. -/
theorem Holds.vaults_eq (hm : Holds p w key keys m) {tokenVault vaultMint : PerToken Pubkey}
    {vault : PerToken TokenAccount} {mint : PerToken Mint}
    (h : w.vaults keys tokenVault vaultMint = .ok (vault, mint)) :
    tokenVault = keys.vault ∧ vaultMint = keys.tokenMint ∧
    (⟨vault.token0.amount, vault.token1.amount⟩ : PerToken Nat) = m.vault ∧
    (vault.token0.mint = keys.tokenMint.token0 ∧ vault.token1.mint = keys.tokenMint.token1) ∧
    ∀ side, ∃ a, w.account (keys.tokenMint.get side) = some (.mint a) ∧ a.mint = mint.get side := by
  simp only [World.vaults, Run.bind_eq_ok, token_eq_ok, mint_eq_ok, check_eq_ok,
    Run.pure_eq_ok, Prod.mk.injEq] at h
  obtain ⟨vault0, hv0, vault1, hv1, a0, ha0, a1, ha1, _, hk0, _, hk1, _, hm0, _, hm1, rfl, rfl⟩ := h
  obtain ⟨t0, ht0, -, hmint0, -, hamount0⟩ := hm.vault .token0
  obtain ⟨t1, ht1, -, hmint1, -, hamount1⟩ := hm.vault .token1
  change w.account keys.vault.token0 = _ at ht0
  change w.account keys.vault.token1 = _ at ht1
  rw [hk0, ht0, Option.some.injEq, Account.token.injEq] at hv0
  rw [hk1, ht1, Option.some.injEq, Account.token.injEq] at hv1
  subst hv0 hv1
  change t0.mint = keys.tokenMint.token0 at hmint0
  change t1.mint = keys.tokenMint.token1 at hmint1
  rw [hmint0] at hm0
  rw [hmint1] at hm1
  refine ⟨congrArg₂ PerToken.mk hk0 hk1, congrArg₂ PerToken.mk hm0 hm1,
    congrArg₂ PerToken.mk hamount0 hamount1, ⟨hmint0, hmint1⟩, ?_⟩
  rw [hm0] at ha0
  rw [hm1] at ha1
  intro side
  cases side with
  | token0 => exact ⟨a0, ha0, rfl⟩
  | token1 => exact ⟨a1, ha1, rfl⟩

/-- Two vaults of different tokens, and what they hold. -/
structure TwoVaults (p : Addresses) (w : World) (tokenVault mint : PerToken Pubkey)
    (held : PerToken Nat) : Prop where
  vault : ∀ side, IsVault p w (tokenVault.get side) (mint.get side) (held.get side)
  mints_ne : mint.token0 ≠ mint.token1

section

variable {tokenVault mint : PerToken Pubkey} {held : PerToken Nat}

theorem TwoVaults.ne (h : TwoVaults p w tokenVault mint held) :
    tokenVault.token0 ≠ tokenVault.token1 := by
  obtain ⟨t0, ht0, -, hmint0, -⟩ := h.vault .token0
  obtain ⟨t1, ht1, -, hmint1, -⟩ := h.vault .token1
  refine ne_of_account ht0 ht1 ?_
  intro heq
  rw [Account.token.injEq] at heq
  subst heq
  exact h.mints_ne (hmint0.symm.trans hmint1)

theorem Holds.twoVaults (hm : Holds p w key keys m) :
    TwoVaults p w keys.vault keys.tokenMint m.vault := ⟨hm.vault, hm.mints_ne⟩

/-- The market of a pool whose vaults changed, all else framed. -/
theorem Holds.revault {written debited : Pubkey → Prop} (hm : Holds p w key keys m)
    (hf : Frame written debited w w') (hkey : ¬written key) (hconfig : ¬written keys.ammConfig)
    (hlp : ¬written keys.lpMint) (hobs : ¬written keys.observationKey)
    (hv : TwoVaults p w' keys.vault keys.tokenMint held) :
    Holds p w' key keys { m with vault := held } := by
  obtain ⟨a, ha, hrest⟩ := hm.lpMint
  exact ⟨hf.kept _ _ hm.pool (by simp) hkey, hf.kept _ _ hm.config (by simp) hconfig, hv.vault,
    ⟨a, hf.kept _ _ ha (by simp) hlp, hrest⟩, hf.kept _ _ hm.observation (by simp) hobs,
    hm.mints_ne, hm.lpMint_ne⟩

end

/-- More accounts are no change to a pool. -/
theorem Holds.extend (h : Holds p w key keys m)
    (hext : ∀ k a, w.account k = some a → w'.account k = some a) : Holds p w' key keys m := by
  obtain ⟨a, ha, hrest⟩ := h.lpMint
  refine ⟨hext _ _ h.pool, hext _ _ h.config, ?_, ⟨a, hext _ _ ha, hrest⟩,
    hext _ _ h.observation, h.mints_ne, h.lpMint_ne⟩
  intro side
  obtain ⟨t, ht, hrest⟩ := h.vault side
  exact ⟨t, hext _ _ ht, hrest⟩

theorem IsVault.amount_eq {vault mint : Pubkey} {held : Nat} {t : TokenAccount}
    (hv : IsVault p w vault mint held) (hk : w.account vault = some (.token t)) :
    t.amount = held := by
  obtain ⟨t', hk', -, -, -, hamount⟩ := hv
  rw [hk, Option.some.injEq, Account.token.injEq] at hk'
  rw [hk', hamount]

/-- An account of someone else is no vault. -/
theorem IsVault.ne_of_owner {k vault mint : Pubkey} {held : Nat} {t : TokenAccount}
    (hv : IsVault p w vault mint held) (hk : w.account k = some (.token t))
    (howner : t.owner ≠ p.authority) : vault ≠ k := by
  rintro rfl
  obtain ⟨t', hk', howner', -⟩ := hv
  rw [hk, Option.some.injEq, Account.token.injEq] at hk'
  subst hk'
  exact howner howner'

/-! ## A pool that is not called -/

/-- A transfer of exactly `amount` into a vault. -/
def gift (side : TokenSide) (amount : Nat) : Call :=
  ⟨⟨⟨0, 0, 0⟩, ⟨Mint.plain 0, Mint.plain 0⟩⟩, .donate side amount amount⟩

/-- A mint that withholds nothing. -/
theorem transfer_plain (decimals epoch : Nat) {held amount : Nat} (h : held + amount < 2 ^ 64) :
    NomadAmm.transferFromUserToPoolVault (Mint.plain decimals) epoch amount held amount =
      .ok (held + amount) := by
  unfold NomadAmm.transferFromUserToPoolVault
  by_cases h0 : amount = 0
  · simp [h0]
  · rw [if_neg h0]
    simp only [Exec.bind_eq_ok, tokenCheck_eq_ok, checkedAdd_eq_some]
    refine ⟨amount, ?_, h, rfl⟩
    simp [arriving, withheldFee, Mint.plain, require, tokenCheck, checkedSub]

theorem gift_step (m : Market) (side : TokenSide) (amount : Nat)
    (h : m.vault.get side + amount < 2 ^ 64) :
    next Market.step m (gift side amount) =
      { m with vault := m.vault.set side (m.vault.get side + amount) } := by
  have hmint : (gift side amount).env.mint side = Mint.plain 0 := by cases side <;> rfl
  have hstep : m.donate (gift side amount).env side amount amount =
      .ok { m with vault := m.vault.set side (m.vault.get side + amount) } := by
    simp only [Market.donate, hmint, Exec.bind_eq_ok, Exec.pure_eq_ok]
    exact ⟨m.vault.get side + amount, transfer_plain 0 _ h, rfl⟩
  have h' : Market.step m (gift side amount) =
      .ok ({ m with vault := m.vault.set side (m.vault.get side + amount) }, .done) := by
    simp only [Market.step, gift, Market.quiet] at hstep ⊢
    rw [hstep]
    rfl
  simp [next, h']

/-- A call that only adds to a vault. -/
def isGift (call : Call) : Prop := ∃ side amount, call = gift side amount

/-- A donation to each vault. -/
def gifts (more : PerToken Nat) : List Call := [gift .token0 more.token0, gift .token1 more.token1]

theorem isGift_of_mem {more : PerToken Nat} : ∀ call ∈ gifts more, isGift call := by
  intro call hcall
  simp only [gifts, List.mem_cons, List.not_mem_nil, or_false] at hcall
  rcases hcall with rfl | rfl
  · exact ⟨_, _, rfl⟩
  · exact ⟨_, _, rfl⟩

theorem gifts_replay (m : Market) {more : PerToken Nat}
    (h : ∀ side, m.vault.get side + more.get side < 2 ^ 64) :
    replay Market.step m (gifts more) = { m with
      vault := ⟨m.vault.token0 + more.token0, m.vault.token1 + more.token1⟩ } := by
  have h0 := gift_step m .token0 more.token0 (h .token0)
  have h1 := gift_step { m with vault := m.vault.set .token0 (m.vault.get .token0 + more.token0) }
    .token1 more.token1 (h .token1)
  rw [gifts, replay_cons, replay_cons, h0, h1]
  rfl

/-- Vaults that gained were given what they gained. -/
theorem gifts_of_le {held : PerToken Nat} (hle : ∀ side, m.vault.get side ≤ held.get side)
    (hlt : ∀ side, held.get side < 2 ^ 64) :
    ∃ more, replay Market.step m (gifts more) = { m with vault := held } := by
  have hle0 : m.vault.token0 ≤ held.token0 := hle .token0
  have hle1 : m.vault.token1 ≤ held.token1 := hle .token1
  have hlt0 : held.token0 < 2 ^ 64 := hlt .token0
  have hlt1 : held.token1 < 2 ^ 64 := hlt .token1
  refine ⟨⟨held.token0 - m.vault.token0, held.token1 - m.vault.token1⟩, ?_⟩
  rw [gifts_replay]
  · dsimp only
    rw [Nat.add_sub_cancel' hle0, Nat.add_sub_cancel' hle1]
  · intro side
    cases side with
    | token0 => exact (Nat.add_sub_cancel' hle0).trans_lt hlt0
    | token1 => exact (Nat.add_sub_cancel' hle1).trans_lt hlt1

/-- What is in the vaults of a pool, both at once. -/
theorem exists_vaults {tokenVault mint : PerToken Pubkey} {good : TokenSide → Nat → Prop}
    (h : ∀ side, ∃ held, IsVault p w (tokenVault.get side) (mint.get side) held ∧ good side held) :
    ∃ held : PerToken Nat, ∀ side,
      IsVault p w (tokenVault.get side) (mint.get side) (held.get side) ∧
        good side (held.get side) := by
  obtain ⟨held0, h0⟩ := h .token0
  obtain ⟨held1, h1⟩ := h .token1
  refine ⟨⟨held0, held1⟩, ?_⟩
  intro side
  cases side with
  | token0 => exact h0
  | token1 => exact h1

/-- Two vaults stay two vaults, with whatever is in them. -/
theorem TwoVaults.of_frame {written debited : Pubkey → Prop} {tokenVault mint : PerToken Pubkey}
    {held : PerToken Nat} (hv : TwoVaults p w tokenVault mint held)
    (hlt : ∀ side, held.get side < 2 ^ 64) (hf : Frame written debited w w') :
    ∃ held', TwoVaults p w' tokenVault mint held' ∧ ∀ side, held'.get side < 2 ^ 64 := by
  obtain ⟨held', hheld⟩ := exists_vaults fun side => (hv.vault side).of_frame hf
  exact ⟨held', ⟨fun side => (hheld side).1, hv.mints_ne⟩,
    fun side => (hheld side).2.2 (hlt side)⟩

/-- The accounts an instruction of a pool reads under its state. -/
def uses (key : Pubkey) (keys : PoolKeys) (k : Pubkey) : Prop :=
  k = keys.ammConfig ∨ writes key keys k

/-- What a pool uses is there, and a config only as its own. -/
theorem Holds.used (h : Holds p w key keys m) {k : Pubkey} (hk : uses key keys k) :
    ∃ account, w.account k = some account ∧ (∀ t, account ≠ .token t) ∧
      (∀ authority, account ≠ .permission authority) ∧
      ∀ c, account = .ammConfig c → k = keys.ammConfig := by
  rcases hk with rfl | rfl | rfl | rfl
  · exact ⟨_, h.config, by simp, by simp, fun _ _ => rfl⟩
  · exact ⟨_, h.pool, by simp, by simp, by simp⟩
  · obtain ⟨a, ha, -⟩ := h.lpMint
    exact ⟨_, ha, by simp, by simp, by simp⟩
  · exact ⟨_, h.observation, by simp, by simp, by simp⟩

/-- The config of a pool, changed. -/
theorem Holds.putConfig (h : Holds p w key keys m) (c : AmmConfig) :
    Holds p (w.put keys.ammConfig (.ammConfig c)) key keys { m with ammConfig := c } := by
  have hold : ∀ t, w.account keys.ammConfig ≠ some (.token t) := by
    intro t ht
    rw [h.config] at ht
    cases ht
  refine ⟨?_, put_self, fun side => (h.vault side).put hold, h.lpMint.put ?_, ?_, h.mints_ne,
    h.lpMint_ne⟩
  · rw [put_of_ne fun heq => h.config_ne_written (.inl heq.symm)]
    exact h.pool
  · exact fun heq => h.config_ne_written (.inr (.inl heq.symm))
  · rw [put_of_ne fun heq => h.config_ne_written (.inr (.inr heq.symm))]
    exact h.observation

/-- **What the calls on other pools leave of a pool**: its accounts as they were, its vaults
with what they had or more where nobody took from them. -/
theorem Holds.framed {written debited : Pubkey → Prop} (h : Holds p w key keys m)
    (hf : Frame written debited w w') (huses : ∀ k, uses key keys k → ¬written k) :
    ∃ held, Holds p w' key keys { m with vault := held } ∧ ∀ side,
      (¬debited (keys.vault.get side) → m.vault.get side ≤ held.get side) ∧
        (m.vault.get side < 2 ^ 64 → held.get side < 2 ^ 64) := by
  obtain ⟨held, hheld⟩ := exists_vaults fun side => (h.vault side).of_frame hf
  obtain ⟨a, ha, hrest⟩ := h.lpMint
  refine ⟨held, ⟨?_, ?_, fun side => (hheld side).1, ⟨a, ?_, hrest⟩, ?_, h.mints_ne, h.lpMint_ne⟩,
    fun side => (hheld side).2⟩
  · exact hf.kept _ _ h.pool (by simp) (huses _ (.inr (.inl rfl)))
  · exact hf.kept _ _ h.config (by simp) (huses _ (.inl rfl))
  · exact hf.kept _ _ ha (by simp) (huses _ (.inr (.inr (.inl rfl))))
  · exact hf.kept _ _ h.observation (by simp) (huses _ (.inr (.inr (.inr rfl))))

/-- Where nobody took from the vaults that is a run of donations. -/
theorem Holds.frame {written debited : Pubkey → Prop} (h : Holds p w key keys m)
    (hm : ∀ side, m.vault.get side < 2 ^ 64) (hf : Frame written debited w w')
    (huses : ∀ k, uses key keys k → ¬written k) (hvault : ∀ side, ¬debited (keys.vault.get side)) :
    ∃ more, Holds p w' key keys (replay Market.step m (gifts more)) := by
  obtain ⟨held, hheld, hgrown⟩ := h.framed hf huses
  obtain ⟨more, hmore⟩ := gifts_of_le (fun side => (hgrown side).1 (hvault side))
    fun side => (hgrown side).2 (hm side)
  exact ⟨more, hmore ▸ hheld⟩

end NomadAmm.Soundness.Representation

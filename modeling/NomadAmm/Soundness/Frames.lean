import NomadAmm.World.Instructions

/-! What an operation on the accounts leaves alone. Accounts of the program and mints are
written by name only, and no mint gets a permanent delegate; a token account keeps its mint
and owner, and unless it is named as debited it can only gain. -/

namespace NomadAmm.Soundness.Frames

open Lib.Checked Exec Run World

/-- A token account whose tokens a key can move. -/
def Spends (w : World) (authority key : Pubkey) : Prop :=
  ∃ t, w.account key = some (.token t) ∧ (t.owner = authority ∨ t.delegate = some authority ∨
    ∃ a, w.account t.mint = some (.mint a) ∧ a.permanentDelegate = some authority)

/-- An account written over another that is no mint with another permanent delegate. -/
def KeepsDelegate (old : Option Account) (account : Account) : Prop :=
  ∀ a d, account = .mint a → a.permanentDelegate = some d →
    ∃ a₀, old = some (.mint a₀) ∧ a₀.permanentDelegate = some d

/-- Between two worlds only `written` accounts of the program and mints change, and only
`debited` token accounts lose. -/
structure Frame (written debited : Pubkey → Prop) (w w' : World) : Prop where
  kept : ∀ key account, w.account key = some account → (∀ t, account ≠ .token t) →
    ¬written key → w'.account key = some account
  token : ∀ key t, w.account key = some (.token t) → ∃ t', w'.account key = some (.token t') ∧
    t'.mint = t.mint ∧ t'.owner = t.owner ∧ (t'.delegate = t.delegate ∨ t'.delegate = none) ∧
    (¬debited key → t.amount ≤ t'.amount) ∧ (t.amount < 2 ^ 64 → t'.amount < 2 ^ 64)
  fresh : ∀ key account, w'.account key = some account → account.ofTokenProgram = false →
    ¬written key → w.account key = some account
  permanent : ∀ key account, w'.account key = some account → KeepsDelegate (w.account key) account

variable {w w' w'' : World} {written written' debited debited' : Pubkey → Prop}
  {key mintKey source destination authority : Pubkey} {account account' : Account}
  {epoch amount : Nat}

theorem KeepsDelegate.of_program {old : Option Account} (h : account.ofTokenProgram = false) :
    KeepsDelegate old account := by
  rintro a d rfl
  cases h

theorem KeepsDelegate.of_token {old : Option Account} {t : TokenAccount} :
    KeepsDelegate old (.token t) := by
  rintro a d h
  cases h

theorem KeepsDelegate.of_same (h : w.account key = some account) :
    KeepsDelegate (w.account key) account := by
  rintro a d rfl hd
  exact ⟨a, h, hd⟩

/-- Writing an account appoints nobody elsewhere. -/
theorem KeepsDelegate.put (hnew : KeepsDelegate (w.account key) account) {key' : Pubkey}
    (h : (w.put key account).account key' = some account') :
    KeepsDelegate (w.account key') account' := by
  by_cases hk : key' = key
  · subst hk
    rw [put_self, Option.some.injEq] at h
    exact h ▸ hnew
  · rw [put_of_ne hk] at h
    exact .of_same h

theorem Frame.refl (w : World) : Frame written debited w w where
  kept _ _ h _ _ := h
  token _ t h := ⟨t, h, rfl, rfl, .inl rfl, fun _ => le_rfl, id⟩
  fresh _ _ h _ _ := h
  permanent _ _ h := .of_same h

/-- Lamports are none of its business. -/
theorem Frame.congr (hf : Frame written debited w w'') (h : w'.account = w''.account) :
    Frame written debited w w' where
  kept := by
    rw [h]
    exact hf.kept
  token := by
    rw [h]
    exact hf.token
  fresh := by
    rw [h]
    exact hf.fresh
  permanent := by
    rw [h]
    exact hf.permanent

/-- What the second part takes matters where there was a token account to begin with. -/
theorem Frame.trans_of (h : Frame written debited w w') (h' : Frame written debited' w' w'')
    (hd : ∀ key t, w.account key = some (.token t) → debited' key → debited key) :
    Frame written debited w w'' where
  kept := by
    intro key account hkey hne hnot
    exact h'.kept key account (h.kept key account hkey hne hnot) hne hnot
  token := by
    intro key t hkey
    obtain ⟨t₁, hkey₁, hmint₁, howner₁, hdel₁, hle₁, hlt₁⟩ := h.token key t hkey
    obtain ⟨t₂, hkey₂, hmint₂, howner₂, hdel₂, hle₂, hlt₂⟩ := h'.token key t₁ hkey₁
    refine ⟨t₂, hkey₂, hmint₂.trans hmint₁, howner₂.trans howner₁, ?_,
      fun hnot => (hle₁ hnot).trans (hle₂ fun hk => hnot (hd key t hkey hk)),
      fun hlt => hlt₂ (hlt₁ hlt)⟩
    rcases hdel₂ with hdel₂ | hdel₂
    · rwa [hdel₂]
    · exact .inr hdel₂
  fresh := by
    intro key account hkey howner hnot
    exact h.fresh key account (h'.fresh key account hkey howner hnot) howner hnot
  permanent := by
    intro key account hkey a d heq hd
    obtain ⟨a₁, hkey₁, hd₁⟩ := h'.permanent key account hkey a d heq hd
    exact h.permanent key _ hkey₁ a₁ d rfl hd₁

theorem Frame.trans (h : Frame written debited w w') (h' : Frame written debited w' w'') :
    Frame written debited w w'' :=
  h.trans_of h' fun _ _ _ => id

theorem Frame.mono (h : Frame written debited w w') (hw : ∀ key, written key → written' key)
    (hd : ∀ key, debited key → debited' key) : Frame written' debited' w w' where
  kept key account hkey hne hnot := h.kept key account hkey hne fun hk => hnot (hw key hk)
  token key t hkey := by
    obtain ⟨t', hkey', hmint, howner, hdel, hle, hlt⟩ := h.token key t hkey
    exact ⟨t', hkey', hmint, howner, hdel, fun hnot => hle fun hk => hnot (hd key hk), hlt⟩
  fresh key account hkey howner hnot := h.fresh key account hkey howner fun hk => hnot (hw key hk)
  permanent := h.permanent

/-- Whose tokens may be gone does not always matter. -/
theorem Frame.coarse (h : Frame written debited w w') : Frame written (fun _ => True) w w' :=
  h.mono (fun _ => id) fun _ _ => trivial

/-- A write to an account that is no token account. -/
theorem put_frame (hold : ∀ t, w.account key ≠ some (.token t))
    (hnew : KeepsDelegate (w.account key) account) :
    Frame (· = key) debited w (w.put key account) where
  kept key' account' hkey _ hnot := by rwa [put_of_ne hnot]
  token key' t hkey := by
    have hne : key' ≠ key := by
      rintro rfl
      exact hold t hkey
    exact ⟨t, by rwa [put_of_ne hne], rfl, rfl, .inl rfl, fun _ => le_rfl, id⟩
  fresh key' account' hkey _ hnot := by rwa [put_of_ne hnot] at hkey
  permanent _ _ := hnew.put

/-- A token account written over a token account. -/
theorem putToken_frame {t t' : TokenAccount} (hold : w.account key = some (.token t))
    (hmint : t'.mint = t.mint) (howner : t'.owner = t.owner)
    (hdel : t'.delegate = t.delegate ∨ t'.delegate = none)
    (hle : ¬debited key → t.amount ≤ t'.amount) (hlt : t.amount < 2 ^ 64 → t'.amount < 2 ^ 64) :
    Frame written debited w (w.put key (.token t')) where
  kept key' account' hkey hne _ := by
    have hk : key' ≠ key := by
      rintro rfl
      rw [hold, Option.some.injEq] at hkey
      exact hne t hkey.symm
    rwa [put_of_ne hk]
  token key' u hkey := by
    by_cases hk : key' = key
    · subst hk
      rw [hold, Option.some.injEq, Account.token.injEq] at hkey
      subst hkey
      exact ⟨t', put_self, hmint, howner, hdel, hle, hlt⟩
    · exact ⟨u, by rwa [put_of_ne hk], rfl, rfl, .inl rfl, fun _ => le_rfl, id⟩
  fresh key' account' hkey howner' _ := by
    by_cases hk : key' = key
    · subst hk
      rw [put_self, Option.some.injEq] at hkey
      subst hkey
      cases howner'
    · rwa [put_of_ne hk] at hkey
  permanent _ _ := KeepsDelegate.of_token.put

theorem create_frame (h : w.create key account = .ok w') (hnew : KeepsDelegate none account) :
    Frame (· = key) debited w w' := by
  obtain ⟨hnone, rfl⟩ := create_eq_ok.mp h
  constructor
  · intro key' account' hkey _ hnot
    rwa [put_of_ne hnot]
  · intro key' t hkey
    have hne : key' ≠ key := by
      rintro rfl
      rw [hnone] at hkey
      cases hkey
    exact ⟨t, by rwa [put_of_ne hne], rfl, rfl, .inl rfl, fun _ => le_rfl, id⟩
  · intro key' account' hkey _ hnot
    rwa [put_of_ne hnot] at hkey
  · exact fun _ _ => KeepsDelegate.put (hnone.symm ▸ hnew)

theorem remove_frame (hold : ∀ t, w.account key ≠ some (.token t)) :
    Frame (· = key) debited w (w.remove key) where
  kept key' account' hkey _ hnot := by
    simpa [World.remove, Function.update_of_ne hnot] using hkey
  token key' t hkey := by
    have hne : key' ≠ key := by
      rintro rfl
      exact hold t hkey
    exact ⟨t, by simpa [World.remove, Function.update_of_ne hne] using hkey, rfl, rfl,
      .inl rfl, fun _ => le_rfl, id⟩
  fresh key' account' hkey _ hnot := by
    simpa [World.remove, Function.update_of_ne hnot] using hkey
  permanent key' account' hkey := by
    by_cases hk : key' = key
    · simp [World.remove, hk] at hkey
    · exact .of_same (by simpa [World.remove, Function.update_of_ne hk] using hkey)

/-- A frame does not see what is written where nothing was. -/
theorem Frame.putNew (hf : Frame written debited w w') (hnone : w.account key = none)
    (hwritten : written key) (hplain : account.ofTokenProgram = false) :
    Frame written debited w (w'.put key account) where
  kept key' account' hkey hne hnot := by
    have hk : key' ≠ key := by
      rintro rfl
      exact hnot hwritten
    rw [put_of_ne hk]
    exact hf.kept key' account' hkey hne hnot
  token key' t hkey := by
    have hne : key' ≠ key := by
      rintro rfl
      rw [hnone] at hkey
      cases hkey
    rw [put_of_ne hne]
    exact hf.token key' t hkey
  fresh key' account' hkey howner hnot := by
    have hk : key' ≠ key := by
      rintro rfl
      exact hnot hwritten
    rw [put_of_ne hk] at hkey
    exact hf.fresh key' account' hkey howner hnot
  permanent key' account' hkey := by
    by_cases hk : key' = key
    · subst hk
      rw [put_self, Option.some.injEq] at hkey
      subst hkey
      exact .of_program hplain
    · rw [put_of_ne hk] at hkey
      exact hf.permanent key' account' hkey

/-! ## Token instructions -/

/-- The keys a validated authority may be. -/
theorem authority_of_validate {t : TokenAccount} {permanent : Option Pubkey} {u : Unit}
    (h : t.validate permanent authority amount = .ok u) :
    permanent = some authority ∨ t.delegate = some authority ∨ t.owner = authority := by
  unfold TokenAccount.validate at h
  split at h
  · next hpermanent => exact .inl hpermanent
  · split at h
    · next hdelegate => exact .inr (.inl hdelegate)
    · exact .inr (.inr (check_eq_ok.mp h).symm)

theorem spends_of_validate {t : TokenAccount} {a : MintAccount}
    (hkey : w.account key = some (.token t)) (ha : w.account t.mint = some (.mint a))
    (h : t.validate a.permanentDelegate authority amount = .ok ()) : Spends w authority key := by
  rcases authority_of_validate h with hpermanent | hdelegate | howner
  · exact ⟨t, hkey, .inr (.inr ⟨a, ha, hpermanent⟩)⟩
  · exact ⟨t, hkey, .inr (.inl hdelegate)⟩
  · exact ⟨t, hkey, .inl howner⟩

/-- No operation lets a key spend from an account it could not spend from. -/
theorem Spends.of_frame (hf : Frame written debited w w') (h : Spends w' authority key)
    {t : TokenAccount} (hkey : w.account key = some (.token t)) : Spends w authority key := by
  obtain ⟨t', hkey', hmay⟩ := h
  obtain ⟨u, hu, hmint, howner, hdel, -⟩ := hf.token key t hkey
  rw [hu, Option.some.injEq, Account.token.injEq] at hkey'
  subst hkey'
  refine ⟨t, hkey, ?_⟩
  rcases hmay with heq | heq | ⟨a, ha, heq⟩
  · exact .inl (howner.symm.trans heq)
  · rcases hdel with hsame | hnone
    · exact .inr (.inl (hsame.symm.trans heq))
    · rw [hnone] at heq
      cases heq
  · rw [hmint] at ha
    exact .inr (.inr (hf.permanent _ _ ha a authority rfl heq))

/-- Taking tokens leaves the mint and the owner, and appoints no delegate. -/
theorem debit_spec (t : TokenAccount) (permanent : Option Pubkey) (authority : Pubkey)
    (amount : Nat) :
    (t.debit permanent authority amount).mint = t.mint ∧
    (t.debit permanent authority amount).owner = t.owner ∧
    (t.debit permanent authority amount).amount = t.amount - amount ∧
    (t.debit permanent authority amount).withheldAmount = t.withheldAmount ∧
    ((t.debit permanent authority amount).delegate = t.delegate ∨
      (t.debit permanent authority amount).delegate = none) := by
  unfold TokenAccount.debit
  split
  · refine ⟨rfl, rfl, rfl, rfl, ?_⟩
    dsimp only
    split
    · exact .inr rfl
    · exact .inl rfl
  · exact ⟨rfl, rfl, rfl, rfl, .inl rfl⟩

theorem credit_eq_ok {t t' : TokenAccount} {fee : Nat} : t.credit amount fee = .ok t' ↔
    fee ≤ amount ∧ t.amount + (amount - fee) < 2 ^ 64 ∧ t.withheldAmount + fee < 2 ^ 64 ∧
      t' = { t with
        amount := t.amount + (amount - fee)
        withheldAmount := t.withheldAmount + fee } := by
  simp only [TokenAccount.credit, Exec.bind_eq_ok, tokenCheck_eq_ok, checkedSub_eq_some,
    checkedAdd_eq_some, Exec.pure_eq_ok]
  constructor
  · intro h
    obtain ⟨_, ⟨hle, rfl⟩, _, ⟨hlt, rfl⟩, _, ⟨hwith, rfl⟩, rfl⟩ := h
    exact ⟨hle, hlt, hwith, rfl⟩
  · intro h
    obtain ⟨hle, hlt, hwith, rfl⟩ := h
    exact ⟨_, ⟨hle, rfl⟩, _, ⟨hlt, rfl⟩, _, ⟨hwith, rfl⟩, rfl⟩

/-- Lamports are moved without an account noticing. -/
theorem moveLamports_account {e : Fault}
    (h : w.moveLamports e source destination amount = .ok w') :
    w'.account = w.account ∧ amount ≤ (w.lamports source).toNat := by
  simp only [moveLamports, Run.bind_eq_ok, handler_eq_ok, Exec.require_eq_ok,
    Run.pure_eq_ok] at h
  obtain ⟨_, hle, _, -, rfl⟩ := h
  exact ⟨rfl, hle⟩

/-- **A transfer**, with everything it checked and the accounts it wrote. -/
theorem transferChecked_spec
    (h : w.transferChecked epoch authority source destination mintKey amount = .ok w') :
    ∃ sender receiver mint fee, w.account source = some (.token sender) ∧
      w.account destination = some (.token receiver) ∧ w.account mintKey = some (.mint mint) ∧
      amount ≤ sender.amount ∧ (sender.mint = receiver.mint ∧ sender.mint = mintKey) ∧
      withheldFee mint.mint epoch amount = .ok fee ∧
      sender.validate mint.permanentDelegate authority amount = .ok () ∧
      (source = destination ∧ w'.account = w.account ∨ source ≠ destination ∧ ∃ credited,
        receiver.credit amount fee = .ok credited ∧ w'.account =
          ((w.put source (.token (sender.debit mint.permanentDelegate authority amount))).put
            destination (.token credited)).account) := by
  simp only [transferChecked, Run.bind_eq_ok, token_eq_ok, mint_eq_ok, handler_eq_ok,
    Exec.require_eq_ok, check_eq_ok] at h
  obtain ⟨sender, hs, receiver, hr, mint, hm, _, hle, _, hmints, fee, hfee, _, hval, h⟩ := h
  refine ⟨sender, receiver, mint, fee, hs, hr, hm, hle, hmints, hfee, hval, ?_⟩
  split at h
  · next heq =>
    obtain rfl := Run.pure_eq_ok.mp h
    exact .inl ⟨heq, rfl⟩
  · next hne =>
    simp only [Run.bind_eq_ok, handler_eq_ok, Run.pure_eq_ok] at h
    obtain ⟨credited, hc, w₁, hlamports, rfl⟩ := h
    have haccount : w₁.account = w.account := by
      unfold moveNative at hlamports
      split at hlamports
      · exact (moveLamports_account hlamports).1
      · obtain rfl := Run.pure_eq_ok.mp hlamports
        rfl
    refine .inr ⟨hne, credited, hc, ?_⟩
    simp only [World.put, haccount]

theorem transferChecked_frame
    (h : w.transferChecked epoch authority source destination mintKey amount = .ok w') :
    Frame written (· = source) w w' := by
  obtain ⟨sender, receiver, mint, fee, hs, hr, -, hle, -, -, -, h⟩ := transferChecked_spec h
  rcases h with ⟨-, haccount⟩ | ⟨hne, credited, hc, haccount⟩
  · exact (Frame.refl w).congr haccount
  · obtain ⟨hdmint, hdowner, hdamount, -, hddel⟩ :=
      debit_spec sender mint.permanentDelegate authority amount
    generalize sender.debit mint.permanentDelegate authority amount = debited at *
    obtain ⟨-, hlt, -, rfl⟩ := credit_eq_ok.mp hc
    have hsent : Frame written (· = source) w (w.put source (.token debited)) :=
      putToken_frame hs hdmint hdowner hddel (fun hnot => absurd rfl hnot) fun h64 => by omega
    have hr' : (w.put source (.token debited)).account destination = some (.token receiver) := by
      rwa [put_of_ne hne.symm]
    refine (hsent.trans ?_).congr haccount
    exact putToken_frame hr' rfl rfl (.inl rfl) (fun _ => Nat.le_add_right _ _) fun _ => hlt

/-- A user's transfer takes from an account that is his to spend from. -/
theorem transferFromUserToPoolVault_frame
    (h : w.transferFromUserToPoolVault epoch authority source destination mintKey amount = .ok w') :
    Frame written (fun k => k = source ∧ Spends w authority k) w w' := by
  unfold World.transferFromUserToPoolVault at h
  split at h
  · obtain rfl := Run.pure_eq_ok.mp h
    exact .refl w
  · obtain ⟨sender, _, _, _, hs, -, hm, -, ⟨-, hmint⟩, -, hval, -⟩ := transferChecked_spec h
    refine (transferChecked_frame h).mono (fun _ => id) ?_
    rintro k rfl
    exact ⟨rfl, spends_of_validate hs (hmint ▸ hm) hval⟩

theorem transferFromPoolVaultToUser_frame
    (h : w.transferFromPoolVaultToUser epoch authority source destination mintKey amount = .ok w') :
    Frame written (· = source) w w' := by
  unfold World.transferFromPoolVaultToUser at h
  split at h
  · obtain rfl := Run.pure_eq_ok.mp h
    exact .refl w
  · exact transferChecked_frame h

theorem tokenMintTo_frame (h : w.tokenMintTo authority mintKey destination amount = .ok w') :
    Frame (· = mintKey) debited w w' := by
  simp only [World.tokenMintTo, Run.bind_eq_ok, token_eq_ok, mint_eq_ok, handler_eq_ok,
    tokenCheck_eq_ok, checkedAdd_eq_some, NomadAmm.tokenMintTo_eq_ok, check_eq_ok,
    Run.pure_eq_ok] at h
  obtain ⟨receiver, hr, mint, hm, _, _, _, _, _, _, _, ⟨hlt, rfl⟩, supply, _, rfl⟩ := h
  have hne : mintKey ≠ destination := by
    rintro rfl
    rw [hm] at hr
    cases hr
  have hgot : Frame (· = mintKey) debited w
      (w.put destination (.token { receiver with amount := receiver.amount + amount })) :=
    putToken_frame hr rfl rfl (.inl rfl) (fun _ => Nat.le_add_right _ _) fun _ => hlt
  refine hgot.trans (put_frame ?_ ?_)
  · intro t ht
    rw [put_of_ne hne, hm] at ht
    cases ht
  · rw [put_of_ne hne, hm]
    rintro _ d ⟨⟩ hd
    exact ⟨mint, rfl, hd⟩

theorem tokenBurn_frame (h : w.tokenBurn authority mintKey source amount = .ok w') :
    Frame (· = mintKey) (fun k => k = source ∧ Spends w authority k) w w' := by
  simp only [World.tokenBurn, Run.bind_eq_ok, token_eq_ok, mint_eq_ok, handler_eq_ok,
    check_eq_ok, Run.pure_eq_ok] at h
  obtain ⟨holder, hh, mint, hm, _, _, _, hmint, supply, _, _, hval, rfl⟩ := h
  obtain ⟨hdmint, hdowner, hdamount, -, hddel⟩ :=
    debit_spec holder mint.permanentDelegate authority amount
  have hne : mintKey ≠ source := by
    rintro rfl
    rw [hm] at hh
    cases hh
  have hspend : source = source ∧ Spends w authority source :=
    ⟨rfl, spends_of_validate hh (hmint ▸ hm) hval⟩
  generalize holder.debit mint.permanentDelegate authority amount = debited at *
  have hlost : Frame (· = mintKey) (fun k => k = source ∧ Spends w authority k) w
      (w.put source (.token debited)) :=
    putToken_frame hh hdmint hdowner hddel (fun hnot => absurd hspend hnot) fun h64 => by omega
  refine hlost.trans (put_frame ?_ ?_)
  · intro t ht
    rw [put_of_ne hne, hm] at ht
    cases ht
  · rw [put_of_ne hne, hm]
    rintro _ d ⟨⟩ hd
    exact ⟨mint, rfl, hd⟩

/-- New accounts of a token program are no accounts of the program. -/
theorem createToken_frame (h : w.create key account = .ok w')
    (howner : account.ofTokenProgram = true) (hnew : KeepsDelegate none account) :
    Frame written debited w w' := by
  have hf : Frame (· = key) debited w w' := create_frame h hnew
  obtain ⟨hnone, rfl⟩ := create_eq_ok.mp h
  constructor
  · intro key' account' hkey hne _
    refine hf.kept key' account' hkey hne ?_
    rintro rfl
    rw [hnone] at hkey
    cases hkey
  · exact hf.token
  · intro key' account' hkey howner' _
    refine hf.fresh key' account' hkey howner' ?_
    rintro rfl
    rw [put_self, Option.some.injEq] at hkey
    rw [← hkey, howner] at howner'
    cases howner'
  · exact hf.permanent

theorem createTokenAccount_frame
    (h : w.createTokenAccount authority destination mintKey = .ok w') :
    Frame written debited w w' := by
  simp only [World.createTokenAccount, Run.bind_eq_ok] at h
  obtain ⟨_, _, h⟩ := h
  exact createToken_frame h rfl .of_token

/-- An existing account survives any creation. -/
theorem create_extends (h : w.create key account = .ok w') {key' : Pubkey}
    (hkey : w.account key' = some account') : w'.account key' = some account' := by
  obtain ⟨hnone, rfl⟩ := create_eq_ok.mp h
  rwa [put_of_ne]
  rintro rfl
  rw [hnone] at hkey
  cases hkey

/-- What `init_if_needed` leaves: every account there was, and one of the wallet. -/
theorem initAssociated_spec {p : Addresses} {wallet : Pubkey} {mint : Mint}
    (h : w.initAssociated p wallet mint mintKey key = .ok w') :
    (∀ k a, w.account k = some a → w'.account k = some a) ∧
    (∃ t, w'.account key = some (.token t) ∧ t.owner = wallet) ∧
    ∀ written debited, Frame written debited w w' := by
  simp only [World.initAssociated, Run.bind_eq_ok, check_eq_ok] at h
  obtain ⟨_, _, h⟩ := h
  split at h
  · have hcreate := h
    simp only [World.createTokenAccount, Run.bind_eq_ok] at hcreate
    obtain ⟨_, _, hcreate⟩ := hcreate
    refine ⟨fun k a => create_extends hcreate, ?_, fun _ _ => createTokenAccount_frame h⟩
    obtain ⟨-, rfl⟩ := create_eq_ok.mp hcreate
    exact ⟨_, put_self, rfl⟩
  · simp only [Run.bind_eq_ok, token_eq_ok, check_eq_ok, Run.pure_eq_ok] at h
    obtain ⟨t, ht, _, _, _, howner, rfl⟩ := h
    exact ⟨fun _ _ => id, ⟨t, ht, howner⟩, fun _ _ => .refl w⟩

end NomadAmm.Soundness.Frames

import NomadAmm.Soundness.Refinement

/-! What a trader or a holder of LP tokens finds in his own accounts, and that the events
say so: every amount an event of a call names is an amount that some account gained or
lost in it. -/

namespace NomadAmm.Soundness.Movements

open Lib.Checked Lib.Transition Exec Run World Instructions
open Soundness.Frames Soundness.Representation Soundness.PoolCalls Soundness.Refinement
open Soundness.Ledger Soundness.Solvency Soundness.Settlement

variable {p : Addresses} {w w' w'' : World} {clock : Clock} {keys : PoolKeys} {m : Market}
  {key source destination mintKey authority : Pubkey} {account : Account}
  {epoch amount fee : Nat} {seizable : Pubkey → Prop}

/-- The balance of a token account. -/
def balance (w : World) (key : Pubkey) : Nat :=
  match w.account key with
  | some (.token t) => t.amount
  | _ => 0

theorem balance_eq {t : TokenAccount} (h : w.account key = some (.token t)) :
    balance w key = t.amount := by
  simp [balance, h]

theorem balance_congr (h : w'.account key = w.account key) : balance w' key = balance w key := by
  simp [balance, h]

/-- A write elsewhere. -/
theorem balance_put {k : Pubkey} (h : k ≠ key) : balance (w.put key account) k = balance w k :=
  balance_congr (put_of_ne h)

def IsTokenOf (w : World) (key mint : Pubkey) : Prop :=
  ∃ t, w.account key = some (.token t) ∧ t.mint = mint

theorem IsTokenOf.ne {key' mint mint' : Pubkey} (h : IsTokenOf w key mint)
    (h' : IsTokenOf w key' mint') (hne : mint ≠ mint') : key ≠ key' := by
  rintro rfl
  obtain ⟨t, ht, rfl⟩ := h
  obtain ⟨t', ht', rfl⟩ := h'
  rw [ht, Option.some.injEq, Account.token.injEq] at ht'
  exact hne (congrArg _ ht')

theorem IsTokenOf.ne_of_account {key' mint : Pubkey} (h : IsTokenOf w key mint)
    (h' : w.account key' = some account) (hne : ∀ t, account ≠ .token t) : key ≠ key' := by
  rintro rfl
  obtain ⟨t, ht, -⟩ := h
  rw [ht, Option.some.injEq] at h'
  exact hne t h'.symm

theorem IsTokenOf.of_frame {written debited : Pubkey → Prop} {mint : Pubkey}
    (hf : Frame written debited w w') (h : IsTokenOf w key mint) : IsTokenOf w' key mint := by
  obtain ⟨t, ht, rfl⟩ := h
  obtain ⟨t', ht', hmint, -⟩ := hf.token _ _ ht
  exact ⟨t', ht', hmint⟩

/-- A token account is of one token. -/
theorem IsTokenOf.back {written debited : Pubkey → Prop} {mint : Pubkey} {t : TokenAccount}
    (hf : Frame written debited w w') (ht : w.account key = some (.token t))
    (h : IsTokenOf w' key mint) : IsTokenOf w key mint := by
  obtain ⟨t', ht', rfl⟩ := h
  obtain ⟨u, hu, hmint, -⟩ := hf.token _ _ ht
  rw [hu, Option.some.injEq, Account.token.injEq] at ht'
  exact ⟨t, ht, ht' ▸ hmint.symm⟩

/-! ## A transfer -/

/-- `amount` left one account and arrived in another less `fee`, and that is all. -/
structure Moved (w w' : World) (source destination : Pubkey) (amount fee : Nat) : Prop where
  sent : balance w' source + amount = balance w source
  received : balance w' destination + fee = balance w destination + amount
  others : ∀ k, k ≠ source → k ≠ destination → w'.account k = w.account k

/-- A transfer takes what it says and withholds what the mint says. -/
theorem transfer_moved (hne : source ≠ destination) (hpos : amount ≠ 0)
    (h : w.transferFromUserToPoolVault epoch authority source destination mintKey amount = .ok w') :
    ∃ mint fee, w.account mintKey = some (.mint mint) ∧
      withheldFee mint.mint epoch amount = .ok fee ∧ Moved w w' source destination amount fee ∧
      IsTokenOf w source mintKey ∧ IsTokenOf w destination mintKey := by
  unfold World.transferFromUserToPoolVault at h
  rw [if_neg hpos] at h
  obtain ⟨sender, receiver, mint, fee, hs, hr, hm, hle, ⟨hsame, hmint⟩, hfee, -, hmove⟩ :=
    transferChecked_spec h
  refine ⟨mint, fee, hm, hfee, ⟨?_, ?_, fun k => transferChecked_other h⟩, ⟨sender, hs, hmint⟩,
    receiver, hr, hsame.symm.trans hmint⟩
  · obtain ⟨heq, -⟩ | ⟨-, credited, hc, haccount⟩ := hmove
    · exact absurd heq hne
    · obtain ⟨-, -, hdamount, -⟩ := debit_spec sender mint.permanentDelegate authority amount
      rw [balance_congr (congrFun haccount source), balance_put hne, balance_eq put_self,
        balance_eq hs, hdamount]
      omega
  · obtain ⟨heq, -⟩ | ⟨-, credited, hc, haccount⟩ := hmove
    · exact absurd heq hne
    · obtain ⟨hfeele, -, -, rfl⟩ := credit_eq_ok.mp hc
      rw [balance_congr (congrFun haccount destination), balance_eq put_self, balance_eq hr]
      dsimp only
      omega

theorem payout_moved (hne : source ≠ destination) (hpos : amount ≠ 0)
    (h : w.transferFromPoolVaultToUser epoch authority source destination mintKey amount = .ok w') :
    ∃ mint fee, w.account mintKey = some (.mint mint) ∧
      withheldFee mint.mint epoch amount = .ok fee ∧ Moved w w' source destination amount fee ∧
      IsTokenOf w source mintKey ∧ IsTokenOf w destination mintKey :=
  transfer_moved hne hpos h

/-- What two transfers of different tokens come to. -/
structure BothMoved (w w' : World) (source destination source' destination' : Pubkey)
    (amount fee amount' fee' : Nat) : Prop where
  sent : balance w' source + amount = balance w source
  received : balance w' destination + fee = balance w destination + amount
  sent' : balance w' source' + amount' = balance w source'
  received' : balance w' destination' + fee' = balance w destination' + amount'
  others : ∀ k, k ≠ source → k ≠ destination → k ≠ source' → k ≠ destination' →
    w'.account k = w.account k

theorem Moved.both {w₁ : World} {source' destination' mint mint' : Pubkey} {amount' fee' : Nat}
    (h : Moved w w₁ source destination amount fee)
    (h' : Moved w₁ w' source' destination' amount' fee') (hne : mint ≠ mint')
    (hs : IsTokenOf w₁ source mint) (hd : IsTokenOf w₁ destination mint)
    (hs' : IsTokenOf w₁ source' mint') (hd' : IsTokenOf w₁ destination' mint') :
    BothMoved w w' source destination source' destination' amount fee amount' fee' where
  sent := by
    rw [balance_congr (h'.others _ (hs.ne hs' hne) (hs.ne hd' hne))]
    exact h.sent
  received := by
    rw [balance_congr (h'.others _ (hd.ne hs' hne) (hd.ne hd' hne))]
    exact h.received
  sent' := by
    rw [← balance_congr (h.others _ (hs'.ne hs hne.symm) (hs'.ne hd hne.symm))]
    exact h'.sent
  received' := by
    rw [← balance_congr (h.others _ (hd'.ne hs hne.symm) (hd'.ne hd hne.symm))]
    exact h'.received
  others k hks hkd hks' hkd' := (h'.others k hks' hkd').trans (h.others k hks hkd)

/-- The fee a handler asks for is the fee withheld. -/
theorem withheld_of_fee {mint : Mint} {withheld : Nat}
    (hfee : getTransferFee mint epoch amount = .ok fee)
    (h : withheldFee mint epoch amount = .ok withheld) : withheld = fee := by
  rw [withheldFee_of_getTransferFee hfee, Except.ok.injEq] at h
  exact h.symm

/-! ## A swap -/

/-- What a swap moved, in the words of its event. -/
structure SwapMoved (w w' : World) (a : Swap p) (e : SwapEvent) : Prop where
  paid : balance w' a.inputTokenAccount + (e.inputAmount + e.inputTransferFee) =
    balance w a.inputTokenAccount
  inputVault : balance w' a.inputVault = balance w a.inputVault + e.inputAmount
  outputVault : balance w' a.outputVault + e.outputAmount = balance w a.outputVault
  received : balance w' a.outputTokenAccount + e.outputTransferFee =
    balance w a.outputTokenAccount + e.outputAmount

/-- The fees a quote counts with are the ones the transfers withhold. -/
structure FeesQuoted (env : Env) (input output : TokenSide) (q : SwapQuote) : Prop where
  input : ∀ withheld, withheldFee (env.mint input) env.clock.epoch q.inputTransferAmount =
    .ok withheld → withheld = q.inputTransferFee
  output : ∀ withheld, withheldFee (env.mint output) env.clock.epoch q.outputTransferAmount =
    .ok withheld → withheld = q.outputTransferFee
  inputAmount : q.result.inputAmount + q.inputTransferFee = q.inputTransferAmount
  outputAmount : q.result.outputAmount = q.outputTransferAmount
  input_pos : q.inputTransferAmount ≠ 0
  output_pos : q.outputTransferAmount ≠ 0

/-- An exact-in quote pays what it was told, and leaves the trader his minimum. -/
theorem quoteBaseInput_fees {env : Env} {input output : TokenSide} {amountIn minimum : Nat}
    {q : SwapQuote} (h : quoteBaseInput m env input output amountIn minimum = .ok q) :
    FeesQuoted env input output q ∧ q.inputTransferAmount = amountIn ∧
      minimum + q.outputTransferFee ≤ q.outputTransferAmount := by
  simp only [quoteBaseInput, Exec.bind_eq_ok, Exec.require_eq_ok, unwrap_eq_ok, tryFrom_eq_some,
    checkedSub_eq_some, Exec.pure_eq_ok] at h
  obtain ⟨cached, -, feeIn, hfeeIn, _, hpos, pricing, -, result, -, _, ⟨-, rfl⟩, _, hin, _,
    ⟨-, rfl⟩, feeOut, hfeeOut, _, ⟨hleOut, rfl⟩, _, hposOut, _, hmin, rfl⟩ := h
  have hleIn := getTransferFee_le hfeeIn
  refine ⟨⟨fun _ => withheld_of_fee hfeeIn, fun _ => withheld_of_fee hfeeOut, ?_, rfl, ?_, ?_⟩,
    rfl, ?_⟩
  · dsimp only
    omega
  · dsimp only
    omega
  · dsimp only
    omega
  · dsimp only
    omega

/-- An exact-out quote delivers what it was told, for the trader's maximum. -/
theorem quoteBaseOutput_fees {env : Env} {input output : TokenSide} {maximum amountOut : Nat}
    {q : SwapQuote} (h : quoteBaseOutput m env input output maximum amountOut = .ok q) :
    FeesQuoted env input output q ∧ q.inputTransferAmount ≤ maximum ∧
      amountOut + q.outputTransferFee = q.outputTransferAmount := by
  simp only [quoteBaseOutput, Exec.bind_eq_ok, Exec.require_eq_ok, unwrap_eq_ok, tryFrom_eq_some,
    checkedAdd_eq_some, Exec.pure_eq_ok] at h
  obtain ⟨_, hposOut, cached, -, feeOut, hinvOut, _, ⟨-, rfl⟩, pricing, -, result, -, _, ⟨-, rfl⟩,
    _, hposIn, feeIn, hinvIn, _, ⟨-, rfl⟩, _, hmax, _, ⟨-, rfl⟩, _, hout, rfl⟩ := h
  refine ⟨⟨fun _ => withheldFee_of_inverse hinvIn, fun _ => withheldFee_of_inverse hinvOut, rfl,
    hout, ?_, ?_⟩, hmax, rfl⟩
  · dsimp only
    omega
  · dsimp only
    omega

/-- The event names the amounts of the quote. -/
theorem swapEvent_amounts {q : SwapQuote} {input output : TokenSide} {e : SwapEvent}
    (h : swapEvent m q input output = .ok e) :
    e.inputAmount = q.result.inputAmount ∧ e.outputAmount = q.result.outputAmount ∧
      e.inputTransferFee = q.inputTransferFee ∧ e.outputTransferFee = q.outputTransferFee := by
  simp only [swapEvent, Exec.bind_eq_ok, unwrap_eq_ok, tryFrom_eq_some, Exec.pure_eq_ok] at h
  obtain ⟨_, ⟨-, rfl⟩, _, ⟨-, rfl⟩, _, -, _, -, rfl⟩ := h
  exact ⟨rfl, rfl, rfl, rfl⟩

/-- **The settlement of a swap moves what its event names.** -/
theorem settleSwap_moved {a : Swap p} {s : SwapAccounts} {q : SwapQuote} {receipt : SwapReceipt}
    (hm : Holds p w a.poolState keys m) (hs : w.swapAccounts clock a = .ok s)
    (hne : s.input ≠ s.output) (hq : FeesQuoted s.env s.input s.output q)
    (hsource : a.inputTokenAccount ≠ a.inputVault) (hout : a.outputTokenAccount ≠ a.outputVault)
    (h : w.settleSwap a s q = .ok (w', receipt)) :
    SwapMoved w w' a receipt.event ∧
      receipt.event.inputAmount + receipt.event.inputTransferFee = q.inputTransferAmount ∧
      receipt.event.outputAmount = q.outputTransferAmount ∧
      receipt.event.outputTransferFee = q.outputTransferFee := by
  obtain ⟨⟨hin, hvout⟩, ⟨hmintIn, hmintOut⟩, hobs, hkeys, -, -, hrest⟩ := swapAccounts_spec hm hs
  obtain ⟨-, ⟨mintIn, hmintInKey, henvIn⟩, mintOut, hmintOutKey, henvOut⟩ := hrest hne
  have hmints : a.inputTokenMint ≠ a.outputTokenMint := by
    rw [hmintIn, hmintOut]
    exact hm.mints_get_ne hne
  simp only [World.settleSwap, Run.bind_eq_ok, handler_eq_ok, Run.pure_eq_ok,
    Prod.mk.injEq] at h
  obtain ⟨_, -, _, -, _, -, _, -, e, he, w₁, h0, w₂, h1, o, -, rfl, rfl⟩ := h
  obtain ⟨heIn, heOut, hefeeIn, hefeeOut⟩ := swapEvent_amounts he
  have hf0 : Frame (fun _ => False) (fun _ => True) w w₁ :=
    (transferFromUserToPoolVault_frame h0).coarse
  obtain ⟨mint0, fee0, hmint0, hfee0, hmoved0, hsrc0, hdst0⟩ :=
    transfer_moved hsource hq.input_pos h0
  obtain ⟨mint1, fee1, hmint1, hfee1, hmoved1, hsrc1, hdst1⟩ :=
    payout_moved hout.symm hq.output_pos h1
  rw [hmintInKey, Option.some.injEq, Account.mint.injEq] at hmint0
  rw [mint_kept hf0 hmintOutKey, Option.some.injEq, Account.mint.injEq] at hmint1
  subst hmint0 hmint1
  rw [← henvIn] at hfee0
  rw [← henvOut] at hfee1
  obtain rfl := hq.input _ hfee0
  obtain rfl := hq.output _ hfee1
  have hsrc0' := hsrc0.of_frame hf0
  have hdst0' := hdst0.of_frame hf0
  obtain ⟨hpaid, hvin, hvout', huser, -⟩ :=
    hmoved0.both hmoved1 hmints hsrc0' hdst0' hsrc1 hdst1
  -- the last two writes are to accounts of the program
  have hkept : ∀ {k mint}, IsTokenOf w₁ k mint → ∀ s', balance
      ((w₂.put a.observationState (.observationState o)).put a.poolState (.poolState keys s')) k =
        balance w₂ k := by
    intro k mint hk s'
    have hpool : k ≠ a.poolState :=
      hk.ne_of_account (hf0.kept _ _ hm.pool (by simp) id) (by simp)
    have hobserved : k ≠ a.observationState := by
      rw [hobs]
      exact hk.ne_of_account (hf0.kept _ _ hm.observation (by simp) id) (by simp)
    rw [balance_put hpool, balance_put hobserved]
  have hamountIn := hq.inputAmount
  have hamountOut := hq.outputAmount
  rw [hkeys]
  refine ⟨⟨?_, ?_, ?_, ?_⟩, ?_, heOut.trans hamountOut, hefeeOut⟩
  · rw [hkept hsrc0', heIn, hefeeIn]
    omega
  · rw [hkept hdst0', heIn]
    omega
  · rw [hkept hsrc1, heOut]
    omega
  · rw [hkept hdst1, heOut, hefeeOut]
    omega
  · rw [heIn, hefeeIn]
    exact hamountIn

/-- **Swaps move what they report, within what the trader allowed**, from an account that is
not the vault paid to, to one that is not the vault paid from. -/
theorem swap_reported (w w' : World) (hw : w.Reachable p seizable) (clock : Clock) (a : Swap p)
    (receipt : SwapReceipt) (hsource : a.inputTokenAccount ≠ a.inputVault)
    (hout : a.outputTokenAccount ≠ a.outputVault) :
    (∀ amountIn minimum, w.step clock (.swapBaseInput a amountIn minimum) =
        .ok (w', some ⟨a.poolState, .swap receipt⟩) →
      SwapMoved w w' a receipt.event ∧
        receipt.event.inputAmount + receipt.event.inputTransferFee = amountIn ∧
        minimum + receipt.event.outputTransferFee ≤ receipt.event.outputAmount) ∧
    (∀ maximum amountOut, w.step clock (.swapBaseOutput a maximum amountOut) =
        .ok (w', some ⟨a.poolState, .swap receipt⟩) →
      SwapMoved w w' a receipt.event ∧
        receipt.event.inputAmount + receipt.event.inputTransferFee ≤ maximum ∧
        amountOut + receipt.event.outputTransferFee = receipt.event.outputAmount) := by
  constructor
  · intro amountIn minimum h
    obtain ⟨keys, state, hkey⟩ := pool_found rfl h
    obtain ⟨m, hm, -⟩ := (reachable_wired hw).pool _ _ _ hkey
    simp only [World.step, reporting, World.swapBaseInput, Run.bind_eq_ok, Prod.exists,
      handler_eq_ok, Run.pure_eq_ok, Prod.mk.injEq, Option.some.injEq, Emitted.mk.injEq, true_and,
      Event.swap.injEq] at h
    obtain ⟨_, _, ⟨s, hs, q, hquote, hsettle⟩, rfl, rfl⟩ := h
    obtain ⟨hq, hin, hmin⟩ := quoteBaseInput_fees hquote
    obtain ⟨hmoved, hein, heout, hefee⟩ :=
      settleSwap_moved hm hs (quotes_sides_ne (.inl hquote)) hq hsource hout hsettle
    exact ⟨hmoved, hein.trans hin, by omega⟩
  · intro maximum amountOut h
    obtain ⟨keys, state, hkey⟩ := pool_found rfl h
    obtain ⟨m, hm, -⟩ := (reachable_wired hw).pool _ _ _ hkey
    simp only [World.step, reporting, World.swapBaseOutput, Run.bind_eq_ok, Prod.exists,
      handler_eq_ok, Run.pure_eq_ok, Prod.mk.injEq, Option.some.injEq, Emitted.mk.injEq, true_and,
      Event.swap.injEq] at h
    obtain ⟨_, _, ⟨s, hs, q, hquote, hsettle⟩, rfl, rfl⟩ := h
    obtain ⟨hq, hmax, hgross⟩ := quoteBaseOutput_fees hquote
    obtain ⟨hmoved, hein, heout, hefee⟩ :=
      settleSwap_moved hm hs (quotes_sides_ne (.inr hquote)) hq hsource hout hsettle
    exact ⟨hmoved, by omega, by omega⟩

/-- The world with a fresh quote at the pool at 400. -/
def exampleQuoted : World := replay stepAt exampleWorld (exampleTrades.take 1)

theorem exampleQuoted_reachable : World.Reachable exampleAddresses (· = 12) exampleQuoted :=
  exampleWorld_reachable.replay _ _

/-- A trader who sells, and one who buys, at a fresh quote. -/
theorem swap_reported_exampleTrader :
    (∃ w' receipt, exampleQuoted.step (exampleClock 1060)
        (.swapBaseInput exampleTrader 1000000 900000) = .ok (w', some ⟨400, .swap receipt⟩) ∧
      SwapMoved exampleQuoted w' exampleTrader receipt.event ∧
      receipt.event.inputAmount + receipt.event.inputTransferFee = 1000000) ∧
    ∃ w' receipt, exampleQuoted.step (exampleClock 1060)
        (.swapBaseOutput exampleTrader 1100000 1000000) = .ok (w', some ⟨400, .swap receipt⟩) ∧
      SwapMoved exampleQuoted w' exampleTrader receipt.event ∧
      receipt.event.inputAmount + receipt.event.inputTransferFee ≤ 1100000 := by
  constructor
  · obtain ⟨⟨w', receipt⟩, h⟩ := Run.exists_of_isOk
      (show (exampleQuoted.swapBaseInput (exampleClock 1060) exampleTrader 1000000
        900000).toOption.isSome = true by decide +kernel)
    have hstep : exampleQuoted.step (exampleClock 1060)
        (.swapBaseInput exampleTrader 1000000 900000) = .ok (w', some ⟨400, .swap receipt⟩) := by
      simp only [World.step, reporting, h, Run.bind_eq_ok, Prod.exists, Run.pure_eq_ok]
      exact ⟨w', receipt, rfl, rfl⟩
    obtain ⟨hmoved, hpaid, -⟩ := (swap_reported _ w' exampleQuoted_reachable (exampleClock 1060)
      exampleTrader receipt (by decide) (by decide)).1 1000000 900000 hstep
    exact ⟨w', receipt, hstep, hmoved, hpaid⟩
  · obtain ⟨⟨w', receipt⟩, h⟩ := Run.exists_of_isOk
      (show (exampleQuoted.swapBaseOutput (exampleClock 1060) exampleTrader 1100000
        1000000).toOption.isSome = true by decide +kernel)
    have hstep : exampleQuoted.step (exampleClock 1060)
        (.swapBaseOutput exampleTrader 1100000 1000000) = .ok (w', some ⟨400, .swap receipt⟩) := by
      simp only [World.step, reporting, h, Run.bind_eq_ok, Prod.exists, Run.pure_eq_ok]
      exact ⟨w', receipt, rfl, rfl⟩
    obtain ⟨hmoved, hpaid, -⟩ := (swap_reported _ w' exampleQuoted_reachable (exampleClock 1060)
      exampleTrader receipt (by decide) (by decide)).2 1100000 1000000 hstep
    exact ⟨w', receipt, hstep, hmoved, hpaid⟩

/-! ## Liquidity -/

/-- What a deposit moved, in the words of its event. -/
structure DepositMoved (w w' : World) (a : ChangeLiquidity p) (k : Nat) (e : LpChangeEvent) :
    Prop where
  paid0 : balance w' a.tokenAccount.token0 + (e.token0Amount + e.token0TransferFee) =
    balance w a.tokenAccount.token0
  paid1 : balance w' a.tokenAccount.token1 + (e.token1Amount + e.token1TransferFee) =
    balance w a.tokenAccount.token1
  vault0 : balance w' a.tokenVault.token0 = balance w a.tokenVault.token0 + e.token0Amount
  vault1 : balance w' a.tokenVault.token1 = balance w a.tokenVault.token1 + e.token1Amount
  minted : balance w' a.ownerLpToken = balance w a.ownerLpToken + k

/-- What a withdrawal moved, in the words of its event. -/
structure WithdrawMoved (w w' : World) (a : ChangeLiquidity p) (k : Nat) (e : LpChangeEvent) :
    Prop where
  burned : balance w' a.ownerLpToken + k = balance w a.ownerLpToken
  vault0 : balance w' a.tokenVault.token0 + (e.token0Amount + e.token0TransferFee) =
    balance w a.tokenVault.token0
  vault1 : balance w' a.tokenVault.token1 + (e.token1Amount + e.token1TransferFee) =
    balance w a.tokenVault.token1
  received0 : balance w' a.tokenAccount.token0 = balance w a.tokenAccount.token0 + e.token0Amount
  received1 : balance w' a.tokenAccount.token1 = balance w a.tokenAccount.token1 + e.token1Amount

theorem mintTo_moved (h : w.tokenMintTo authority mintKey destination amount = .ok w') :
    balance w' destination = balance w destination + amount ∧ IsTokenOf w destination mintKey ∧
      ∀ k, k ≠ destination → k ≠ mintKey → w'.account k = w.account k := by
  simp only [World.tokenMintTo, Run.bind_eq_ok, token_eq_ok, mint_eq_ok, handler_eq_ok,
    tokenCheck_eq_ok, checkedAdd_eq_some, check_eq_ok, Run.pure_eq_ok] at h
  obtain ⟨receiver, hr, a, ha, _, -, _, hmint, _, -, _, ⟨-, rfl⟩, supply, -, rfl⟩ := h
  have hne : destination ≠ mintKey := ne_of_account hr ha (by simp)
  refine ⟨?_, ⟨receiver, hr, hmint⟩, ?_⟩
  · rw [balance_put hne, balance_eq put_self, balance_eq hr]
  · intro k hd hm
    rw [put_of_ne hm, put_of_ne hd]

theorem burn_moved (h : w.tokenBurn authority mintKey source amount = .ok w') :
    balance w' source + amount = balance w source ∧ IsTokenOf w source mintKey ∧
      ∀ k, k ≠ source → k ≠ mintKey → w'.account k = w.account k := by
  simp only [World.tokenBurn, Run.bind_eq_ok, token_eq_ok, mint_eq_ok, handler_eq_ok,
    NomadAmm.tokenBurn_eq_ok, check_eq_ok, Run.pure_eq_ok] at h
  obtain ⟨holder, hh, a, ha, _, -, _, hmint, supply, ⟨hle, -, -⟩, _, -, rfl⟩ := h
  have hne : source ≠ mintKey := ne_of_account hh ha (by simp)
  obtain ⟨-, -, hdamount, -⟩ := debit_spec holder a.permanentDelegate authority amount
  refine ⟨?_, ⟨holder, hh, hmint⟩, ?_⟩
  · rw [balance_put hne, balance_eq put_self, balance_eq hh, hdamount]
    omega
  · intro k hs hm
    rw [put_of_ne hm, put_of_ne hs]

/-- What a deposit is quoted. -/
theorem quoteDeposit_fees {s : PoolState} {vault : PerToken Nat} {env : Env} {k max0 max1 : Nat}
    {amount : PerToken Nat} {e : LpChangeEvent}
    (h : quoteDeposit s vault env k max0 max1 = .ok (amount, e)) :
    getTransferInverseFee (env.mint .token0) env.clock.epoch e.token0Amount =
        .ok e.token0TransferFee ∧
      getTransferInverseFee (env.mint .token1) env.clock.epoch e.token1Amount =
        .ok e.token1TransferFee ∧
      amount.token0 = e.token0Amount + e.token0TransferFee ∧
      amount.token1 = e.token1Amount + e.token1TransferFee ∧
      e.token0Amount ≠ 0 ∧ e.token1Amount ≠ 0 ∧ amount.token0 ≤ max0 ∧ amount.token1 ≤ max1 := by
  simp only [quoteDeposit, shareAmounts, Exec.bind_eq_ok, Exec.require_eq_ok, unwrap_eq_ok,
    tryFrom_eq_some, Prod.exists, Exec.pure_eq_ok, Prod.mk.injEq] at h
  obtain ⟨_, -, _, -, total, -, results, ⟨_, -, _, ⟨hne0, hne1⟩, rfl⟩, _, ⟨-, rfl⟩, total0, fee0,
    hg0, _, ⟨-, rfl⟩, total1, fee1, hg1, _, ⟨hmax0, hmax1⟩, rfl, rfl⟩ := h
  obtain ⟨hinv0, rfl⟩ := grossTransfer_eq_ok hg0
  obtain ⟨hinv1, rfl⟩ := grossTransfer_eq_ok hg1
  exact ⟨hinv0, hinv1, rfl, rfl, hne0, hne1, hmax0, hmax1⟩

/-- **A deposit moves what it reports.** -/
theorem deposit_moved {a : ChangeLiquidity p} {k max0 max1 : Nat} {e : LpChangeEvent}
    (hm : Holds p w a.poolState keys m) (h : w.deposit clock a k max0 max1 = .ok (w', e)) :
    DepositMoved w w' a k e ∧ e.token0Amount + e.token0TransferFee ≤ max0 ∧
      e.token1Amount + e.token1TransferFee ≤ max1 := by
  simp only [World.deposit, Run.bind_eq_ok, Prod.exists, poolState_eq_ok, hm.pool, token_eq_ok,
    mint_eq_ok, check_eq_ok, handler_eq_ok, Run.pure_eq_ok, Option.some.injEq,
    Account.poolState.injEq, Prod.mk.injEq] at h
  obtain ⟨_, _, ⟨rfl, rfl⟩, ownerLp, -, token0, htoken0, token1, htoken1, vault, mint, hvaults, _,
    -, _, ⟨-, howner0, howner1⟩, _, -, _, hlp, amount, e, hquote, w₁, h0, w₂, h1, lpSupply, -, w₃,
    h2, rfl, rfl⟩ := h
  obtain ⟨hvault, hmint, -, -, hmints⟩ := hm.vaults_eq hvaults
  obtain ⟨hinv0, hinv1, hgross0, hgross1, hne0, hne1, hmax0, hmax1⟩ := quoteDeposit_fees hquote
  obtain ⟨mint0, hmint0, hmeq0⟩ := hmints .token0
  obtain ⟨mint1, hmint1, hmeq1⟩ := hmints .token1
  rw [hvault, hmint] at h0 h1
  have hsource0 : a.tokenAccount.token0 ≠ keys.vault.token0 :=
    ((hm.vault .token0).ne_of_owner htoken0 (howner0 ▸ a.owner.key_ne)).symm
  have hsource1 : a.tokenAccount.token1 ≠ keys.vault.token1 :=
    ((hm.vault .token1).ne_of_owner htoken1 (howner1 ▸ a.owner.key_ne)).symm
  have hf0 : Frame (fun _ => False) (fun _ => True) w w₁ :=
    (transferFromUserToPoolVault_frame h0).coarse
  have hf1 : Frame (fun _ => False) (fun _ => True) w w₂ :=
    hf0.trans (transferFromUserToPoolVault_frame h1).coarse
  obtain ⟨mint0', fee0, hmint0', hfee0, hmoved0, hsrc0, hdst0⟩ :=
    transfer_moved hsource0 (by omega) h0
  obtain ⟨mint1', fee1, hmint1', hfee1, hmoved1, hsrc1, hdst1⟩ :=
    transfer_moved hsource1 (by omega) h1
  -- the fees withheld are the ones the quote inverted
  change w.account keys.tokenMint.token0 = _ at hmint0
  change w.account keys.tokenMint.token1 = _ at hmint1
  rw [hmint0, Option.some.injEq, Account.mint.injEq] at hmint0'
  rw [mint_kept hf0 hmint1, Option.some.injEq, Account.mint.injEq] at hmint1'
  subst hmint0' hmint1'
  rw [hmeq0, hgross0] at hfee0
  rw [hmeq1, hgross1] at hfee1
  obtain rfl := withheldFee_of_inverse hinv0 hfee0
  obtain rfl := withheldFee_of_inverse hinv1 hfee1
  have hboth := hmoved0.both hmoved1 hm.mints_ne (hsrc0.of_frame hf0)
    (hdst0.of_frame hf0) hsrc1 hdst1
  -- the LP tokens are another token again
  obtain ⟨hminted, hlpToken, hothers⟩ := mintTo_moved h2
  rw [hlp] at hlpToken hothers
  have hlpne0 : keys.tokenMint.token0 ≠ keys.lpMint := hm.lpMint_ne .token0
  have hlpne1 : keys.tokenMint.token1 ≠ keys.lpMint := hm.lpMint_ne .token1
  have hf01 : Frame (fun _ => False) (fun _ => True) w₁ w₂ :=
    (transferFromUserToPoolVault_frame h1).coarse
  have hsrc0' := (hsrc0.of_frame hf0).of_frame hf01
  have hdst0' := (hdst0.of_frame hf0).of_frame hf01
  have hsrc1' := hsrc1.of_frame hf01
  have hdst1' := hdst1.of_frame hf01
  obtain ⟨lp, hlpMint, -⟩ := hm.lpMint
  have hpool : w₂.account a.poolState = some (.poolState keys m.poolState) :=
    hf1.kept _ _ hm.pool (by simp) id
  have hkept : ∀ {key mint}, IsTokenOf w₂ key mint → mint ≠ keys.lpMint → ∀ s,
      balance (w₃.put a.poolState (.poolState keys s)) key = balance w₂ key := by
    intro key mint hk hne s
    rw [balance_put (hk.ne_of_account hpool (by simp))]
    exact balance_congr (hothers key (hk.ne hlpToken hne)
      (hk.ne_of_account (mint_kept hf1 hlpMint) (by simp)))
  have hlpKept := balance_congr (hboth.others a.ownerLpToken
    (fun heq => hsrc0'.ne hlpToken hlpne0 heq.symm) (fun heq => hdst0'.ne hlpToken hlpne0 heq.symm)
    (fun heq => hsrc1'.ne hlpToken hlpne1 heq.symm) fun heq => hdst1'.ne hlpToken hlpne1 heq.symm)
  obtain ⟨hsent0, hreceived0, hsent1, hreceived1, -⟩ := hboth
  refine ⟨⟨?_, ?_, ?_, ?_, ?_⟩, by omega, by omega⟩
  · rw [hkept hsrc0' hlpne0]
    omega
  · rw [hkept hsrc1' hlpne1]
    omega
  · rw [hvault, hkept hdst0' hlpne0]
    omega
  · rw [hvault, hkept hdst1' hlpne1]
    omega
  · rw [balance_put (hlpToken.ne_of_account hpool (by simp)), hminted, hlpKept]

/-- Of nothing there is no share. -/
theorem tokenShare_pos {lp supply total share : Nat}
    (h : ConstantProductCurve.tokenShare lp supply total .floor = some share) (hne : share ≠ 0) :
    total ≠ 0 := by
  rintro rfl
  obtain ⟨-, -, rfl⟩ := ConstantProductCurve.tokenShare_floor.mp h
  simp at hne

/-- What a withdrawal is quoted. -/
theorem quoteWithdraw_fees {s : PoolState} {vault : PerToken Nat} {env : Env}
    {k min0 min1 held : Nat} {amount : PerToken Nat} {e : LpChangeEvent}
    (h : quoteWithdraw s vault env k min0 min1 held = .ok (amount, e)) :
    getTransferFee (env.mint .token0) env.clock.epoch amount.token0 = .ok e.token0TransferFee ∧
      getTransferFee (env.mint .token1) env.clock.epoch amount.token1 = .ok e.token1TransferFee ∧
      amount.token0 = e.token0Amount + e.token0TransferFee ∧
      amount.token1 = e.token1Amount + e.token1TransferFee ∧
      amount.token0 ≠ 0 ∧ amount.token1 ≠ 0 ∧ min0 ≤ e.token0Amount ∧ min1 ≤ e.token1Amount := by
  simp only [quoteWithdraw, shareAmounts, netTransfer, CurveCalculator.lpTokensToTradingTokens,
    Exec.bind_eq_ok, Exec.require_eq_ok, unwrap_eq_ok, okOr_eq_ok, tryFrom_eq_some,
    checkedSub_eq_some, ConstantProductCurve.lpTokensToTradingTokens_eq_some, Prod.exists,
    Exec.pure_eq_ok, Prod.mk.injEq] at h
  obtain ⟨_, -, _, -, _, -, total, -, results, ⟨_, ⟨hshare0, hshare1⟩, _, ⟨hne0, hne1⟩, rfl⟩, _,
    ⟨-, rfl⟩, receive0, fee0, ⟨_, hfee0, _, ⟨hle0, rfl⟩, rfl, rfl⟩, _, ⟨-, rfl⟩, receive1, fee1,
    ⟨_, hfee1, _, ⟨hle1, rfl⟩, rfl, rfl⟩, _, ⟨hmin0, hmin1⟩, rfl, rfl⟩ := h
  have htotal0 := tokenShare_pos hshare0 hne0
  have htotal1 := tokenShare_pos hshare1 hne1
  refine ⟨hfee0, hfee1, ?_, ?_, ?_, ?_, hmin0, hmin1⟩
  · dsimp only
    omega
  · dsimp only
    omega
  · dsimp only
    omega
  · dsimp only
    omega

/-- **A withdrawal moves what it reports**, to accounts that are not the vaults. -/
theorem withdraw_moved {a : ChangeLiquidity p} {k min0 min1 : Nat} {e : LpChangeEvent}
    (hm : Holds p w a.poolState keys m)
    (hout : a.tokenAccount.token0 ≠ a.tokenVault.token0 ∧
      a.tokenAccount.token1 ≠ a.tokenVault.token1)
    (h : w.withdraw clock a k min0 min1 = .ok (w', e)) :
    WithdrawMoved w w' a k e ∧ min0 ≤ e.token0Amount ∧ min1 ≤ e.token1Amount := by
  simp only [World.withdraw, World.payOut, Run.bind_eq_ok, Prod.exists, poolState_eq_ok, hm.pool,
    token_eq_ok, mint_eq_ok, check_eq_ok, handler_eq_ok, Run.pure_eq_ok, Option.some.injEq,
    Account.poolState.injEq, Prod.mk.injEq] at h
  obtain ⟨_, _, ⟨rfl, rfl⟩, ownerLp, -, _, htoken0, _, htoken1, vault, mint, hvaults, _, -, _, -, _,
    -, _, hlp, amount, e, hquote, lpSupply, -, w₁, h0, w₃, ⟨w₂, h1, h2⟩, rfl, rfl⟩ := h
  obtain ⟨hvault, hmint, hheld, -, hmints⟩ := hm.vaults_eq hvaults
  rw [hheld] at hquote
  obtain ⟨hfee0, hfee1, hamount0, hamount1, hne0, hne1, hmin0, hmin1⟩ := quoteWithdraw_fees hquote
  obtain ⟨mint0, hmint0, hmeq0⟩ := hmints .token0
  obtain ⟨mint1, hmint1, hmeq1⟩ := hmints .token1
  have hlpne0 : keys.tokenMint.token0 ≠ keys.lpMint := hm.lpMint_ne .token0
  have hlpne1 : keys.tokenMint.token1 ≠ keys.lpMint := hm.lpMint_ne .token1
  change w.account keys.tokenMint.token0 = _ at hmint0
  change w.account keys.tokenMint.token1 = _ at hmint1
  rw [hmint] at h1 h2
  rw [hlp] at h0
  obtain ⟨hburned, hlpToken, hothers⟩ := burn_moved h0
  have hf0 : Frame (· = keys.lpMint) (fun _ => True) w w₁ := (tokenBurn_frame h0).coarse
  have hf1 : Frame (fun _ => False) (fun _ => True) w₁ w₂ :=
    (transferFromPoolVaultToUser_frame h1).coarse
  have hf2 : Frame (fun _ => False) (fun _ => True) w₂ w₃ :=
    (transferFromPoolVaultToUser_frame h2).coarse
  obtain ⟨mint0', fee0, hmint0', hwithheld0, hmoved0, hsrc0, hdst0⟩ :=
    payout_moved hout.1.symm hne0 h1
  obtain ⟨mint1', fee1, hmint1', hwithheld1, hmoved1, hsrc1, hdst1⟩ :=
    payout_moved hout.2.symm hne1 h2
  rw [hf0.kept _ _ hmint0 (by simp) hlpne0, Option.some.injEq, Account.mint.injEq] at hmint0'
  rw [mint_kept hf1 (hf0.kept _ _ hmint1 (by simp) hlpne1), Option.some.injEq,
    Account.mint.injEq] at hmint1'
  subst hmint0' hmint1'
  rw [hmeq0] at hwithheld0
  rw [hmeq1] at hwithheld1
  obtain rfl := withheld_of_fee hfee0 hwithheld0
  obtain rfl := withheld_of_fee hfee1 hwithheld1
  have hboth := hmoved0.both hmoved1 hm.mints_ne (hsrc0.of_frame hf1)
    (hdst0.of_frame hf1) hsrc1 hdst1
  have hlpToken₂ := (hlpToken.of_frame hf0).of_frame hf1
  have hlpKept := balance_congr (hboth.others a.ownerLpToken
    (fun heq => (hsrc0.of_frame hf1).ne hlpToken₂ hlpne0 heq.symm)
    (fun heq => (hdst0.of_frame hf1).ne hlpToken₂ hlpne0 heq.symm)
    (fun heq => hsrc1.ne hlpToken₂ hlpne1 heq.symm) fun heq => hdst1.ne hlpToken₂ hlpne1 heq.symm)
  -- the burning touches no account of the two tokens
  obtain ⟨lp, hlpMint, -⟩ := hm.lpMint
  have hburnKept : ∀ {key mint}, IsTokenOf w key mint → mint ≠ keys.lpMint →
      balance w₁ key = balance w key := by
    intro key mint hk hne
    exact balance_congr (hothers key (hk.ne hlpToken hne) (hk.ne_of_account hlpMint (by simp)))
  have hvault0 : IsTokenOf w a.tokenVault.token0 keys.tokenMint.token0 := by
    obtain ⟨t, ht, -, hmint, -⟩ := hm.vault .token0
    rw [hvault]
    exact ⟨t, ht, hmint⟩
  have hvault1 : IsTokenOf w a.tokenVault.token1 keys.tokenMint.token1 := by
    obtain ⟨t, ht, -, hmint, -⟩ := hm.vault .token1
    rw [hvault]
    exact ⟨t, ht, hmint⟩
  have huser0 := hdst0.back hf0 htoken0
  have huser1 := hdst1.back (hf0.trans (hf1.mono (fun _ => False.elim) fun _ => id)) htoken1
  have hpool : w₃.account a.poolState = some (.poolState keys m.poolState) :=
    (hf1.trans hf2).kept _ _ (hf0.kept _ _ hm.pool (by simp) hm.key_ne_lpMint.symm) (by simp) id
  have hput : ∀ {key mint}, IsTokenOf w₃ key mint → ∀ s,
      balance (w₃.put a.poolState (.poolState keys s)) key = balance w₃ key := by
    intro key mint hk s
    exact balance_put (hk.ne_of_account hpool (by simp))
  obtain ⟨hsent0, hreceived0, hsent1, hreceived1, -⟩ := hboth
  rw [hburnKept hvault0 hlpne0] at hsent0
  rw [hburnKept huser0 hlpne0] at hreceived0
  rw [hburnKept hvault1 hlpne1] at hsent1
  rw [hburnKept huser1 hlpne1] at hreceived1
  refine ⟨⟨?_, ?_, ?_, ?_, ?_⟩, hmin0, hmin1⟩
  · rw [hput (hlpToken₂.of_frame hf2), hlpKept]
    exact hburned
  · rw [hput ((hsrc0.of_frame hf1).of_frame hf2)]
    omega
  · rw [hput (hsrc1.of_frame hf2)]
    omega
  · rw [hput ((hdst0.of_frame hf1).of_frame hf2)]
    omega
  · rw [hput (hdst1.of_frame hf2)]
    omega

/-- **Deposits and withdrawals move what they report**, within what was allowed; a withdrawal
to accounts that are not the vaults. -/
theorem liquidity_reported (w w' : World) (hw : w.Reachable p seizable) (clock : Clock)
    (a : ChangeLiquidity p) (k : Nat) (e : LpChangeEvent) :
    (∀ max0 max1, w.step clock (.deposit a k max0 max1) =
        .ok (w', some ⟨a.poolState, .lpChange e⟩) →
      DepositMoved w w' a k e ∧ e.token0Amount + e.token0TransferFee ≤ max0 ∧
        e.token1Amount + e.token1TransferFee ≤ max1) ∧
    (∀ min0 min1, w.step clock (.withdraw a k min0 min1) =
        .ok (w', some ⟨a.poolState, .lpChange e⟩) →
      a.tokenAccount.token0 ≠ a.tokenVault.token0 ∧ a.tokenAccount.token1 ≠ a.tokenVault.token1 →
      WithdrawMoved w w' a k e ∧ min0 ≤ e.token0Amount ∧ min1 ≤ e.token1Amount) := by
  constructor
  · intro max0 max1 h
    obtain ⟨keys, state, hkey⟩ := pool_found rfl h
    obtain ⟨m, hm, -⟩ := (reachable_wired hw).pool _ _ _ hkey
    simp only [World.step, reporting, Run.bind_eq_ok, Prod.exists, Run.pure_eq_ok, Prod.mk.injEq,
      Option.some.injEq, Emitted.mk.injEq, true_and, Event.lpChange.injEq] at h
    obtain ⟨_, _, h, rfl, rfl⟩ := h
    exact deposit_moved hm h
  · intro min0 min1 h hout
    obtain ⟨keys, state, hkey⟩ := pool_found rfl h
    obtain ⟨m, hm, -⟩ := (reachable_wired hw).pool _ _ _ hkey
    simp only [World.step, reporting, Run.bind_eq_ok, Prod.exists, Run.pure_eq_ok, Prod.mk.injEq,
      Option.some.injEq, Emitted.mk.injEq, true_and, Event.lpChange.injEq] at h
    obtain ⟨_, _, h, rfl, rfl⟩ := h
    exact withdraw_moved hm hout h

/-- The maker of a pool puts something in, or takes something back. -/
theorem liquidity_reported_exampleWorld :
    (∃ w' e, exampleWorld.step (exampleClock 1060) (.deposit exampleHolder 1000 1100 1100) =
        .ok (w', some ⟨300, .lpChange e⟩) ∧
      DepositMoved exampleWorld w' exampleHolder 1000 e ∧
      e.token0Amount + e.token0TransferFee ≤ 1100) ∧
    ∃ w' e, exampleWorld.step (exampleClock 1060) (.withdraw exampleHolder 1000 900 900) =
        .ok (w', some ⟨300, .lpChange e⟩) ∧
      WithdrawMoved exampleWorld w' exampleHolder 1000 e ∧ 900 ≤ e.token0Amount := by
  constructor
  · obtain ⟨⟨w', e⟩, h⟩ := Run.exists_of_isOk (show (exampleWorld.deposit (exampleClock 1060)
      exampleHolder 1000 1100 1100).toOption.isSome = true by decide +kernel)
    have hstep : exampleWorld.step (exampleClock 1060) (.deposit exampleHolder 1000 1100 1100) =
        .ok (w', some ⟨300, .lpChange e⟩) := by
      simp only [World.step, reporting, h, Run.bind_eq_ok, Prod.exists, Run.pure_eq_ok]
      exact ⟨w', e, rfl, rfl⟩
    obtain ⟨hmoved, hmax0, -⟩ := (liquidity_reported exampleWorld w' exampleWorld_reachable
      (exampleClock 1060) exampleHolder 1000 e).1 1100 1100 hstep
    exact ⟨w', e, hstep, hmoved, hmax0⟩
  · obtain ⟨⟨w', e⟩, h⟩ := Run.exists_of_isOk (show (exampleWorld.withdraw (exampleClock 1060)
      exampleHolder 1000 900 900).toOption.isSome = true by decide +kernel)
    have hstep : exampleWorld.step (exampleClock 1060) (.withdraw exampleHolder 1000 900 900) =
        .ok (w', some ⟨300, .lpChange e⟩) := by
      simp only [World.step, reporting, h, Run.bind_eq_ok, Prod.exists, Run.pure_eq_ok]
      exact ⟨w', e, rfl, rfl⟩
    obtain ⟨hmoved, hmin0, -⟩ := (liquidity_reported exampleWorld w' exampleWorld_reachable
      (exampleClock 1060) exampleHolder 1000 e).2 900 900 hstep (by decide)
    exact ⟨w', e, hstep, hmoved, hmin0⟩

end NomadAmm.Soundness.Movements

import NomadAmm.Error

/-! `utils/token.rs`: transfer fees of a mint, and the token instructions the
program invokes. A balance is the `amount` of a token account; an instruction
takes the balances it touches and returns the ones it leaves. The credit of a
user's account is left out: all balances of a mint sum to its `u64` supply. -/

namespace NomadAmm

open Lib.Checked Exec

/-- The transfer-fee extension of a mint, as the token library answers for it. The
two laws are what the library documents of any stored configuration: the rate is
at most 100 %, so a fee never exceeds the amount, and at 100 % only the maximum
caps it. -/
structure TransferFeeConfig where
  transferFeeBasisPoints : Nat → Nat
  maximumFee : Nat → Nat
  calculateEpochFee : Nat → Nat → Option Nat
  calculateInverseEpochFee : Nat → Nat → Option Nat
  fee_le_amount : ∀ {epoch amount fee}, calculateEpochFee epoch amount = some fee → fee ≤ amount
  full_rate : ∀ {epoch amount fee}, transferFeeBasisPoints epoch = 10000 →
    calculateEpochFee epoch amount = some fee → fee = min amount (maximumFee epoch)

def maxFeeBasisPoints : Nat := 10000

inductive TokenProgram
  | token
  | token2022
  deriving DecidableEq, Repr

structure Mint where
  decimals : Nat
  owner : TokenProgram
  transferFeeConfig : Option TransferFeeConfig

/-- A mint without the transfer-fee extension. -/
def Mint.plain (decimals : Nat) : Mint := ⟨decimals, .token, none⟩

/-- Calculate the fee for input amount. -/
def getTransferFee (mint : Mint) (epoch preFeeAmount : Nat) : Exec Nat :=
  match mint.owner, mint.transferFeeConfig with
  | .token, _ => pure 0
  | .token2022, none => pure 0
  | .token2022, some config => unwrap (config.calculateEpochFee epoch preFeeAmount)

/-- The fee an inverse computation found, checked against the forward one. -/
def checkedInverseFee (config : TransferFeeConfig) (epoch postFeeAmount : Nat) : Exec Nat := do
  let transferFee ← unwrap (config.calculateInverseEpochFee epoch postFeeAmount)
  let preFeeAmount ← unwrap (checkedAdd 64 postFeeAmount transferFee)
  let transferFeeForCheck ← unwrap (config.calculateEpochFee epoch preFeeAmount)
  require (transferFee = transferFeeForCheck) (.code .transferFeeCalculateNotMatch)
  pure transferFee

/-- Calculate the fee for output amount. -/
def getTransferInverseFee (mint : Mint) (epoch postFeeAmount : Nat) : Exec Nat :=
  match mint.owner with
  | .token => pure 0
  | .token2022 => do
    require (postFeeAmount ≠ 0) (.code .invalidInput)
    match mint.transferFeeConfig with
    | none => pure 0
    | some config =>
      if config.transferFeeBasisPoints epoch = maxFeeBasisPoints then
        pure (config.maximumFee epoch)
      else checkedInverseFee config epoch postFeeAmount

/-! ## Token instructions -/

def tokenCheck {α : Type} (e : TokenError) : Option α → Exec α
  | some a => .ok a
  | none => .error (.token e)

@[simp] theorem tokenCheck_eq_ok {α : Type} {e : TokenError} {o : Option α} {a : α} :
    tokenCheck e o = .ok a ↔ o = some a := by
  cases o <;> simp [tokenCheck]

/-- What a transfer of `amount` withholds; the token program's own computation. -/
def withheldFee (mint : Mint) (epoch amount : Nat) : Exec Nat :=
  match mint.owner, mint.transferFeeConfig with
  | .token, _ => pure 0
  | .token2022, none => pure 0
  | .token2022, some config => tokenCheck .overflow (config.calculateEpochFee epoch amount)

/-- What arrives of `amount` when a user transfers it. -/
def arriving (mint : Mint) (epoch userAmount amount : Nat) : Exec Nat := do
  require (amount ≤ userAmount) (.token .insufficientFunds)
  let fee ← withheldFee mint epoch amount
  tokenCheck .overflow (checkedSub amount fee)

/-- The vault after a user paid `amount` into it. -/
def transferFromUserToPoolVault (mint : Mint) (epoch userAmount vaultAmount amount : Nat) :
    Exec Nat :=
  if amount = 0 then pure vaultAmount
  else do
    let credited ← arriving mint epoch userAmount amount
    tokenCheck .overflow (checkedAdd 64 vaultAmount credited)

/-- The vault after it paid `amount` out. A transfer to itself moves nothing. -/
def transferFromPoolVaultToUser (vaultAmount amount : Nat) (toVault : Bool) : Exec Nat :=
  if amount = 0 then pure vaultAmount
  else do
    let debited ← tokenCheck .insufficientFunds (checkedSub vaultAmount amount)
    pure (if toVault then vaultAmount else debited)

/-- The supply after minting. -/
def tokenMintTo (supply amount : Nat) : Exec Nat :=
  tokenCheck .overflow (checkedAdd 64 supply amount)

/-- The supply after `amount` was burned from an account that holds `held`. -/
def tokenBurn (supply held amount : Nat) : Exec Nat := do
  require (amount ≤ held) (.token .insufficientFunds)
  tokenCheck .overflow (checkedSub supply amount)

/-! ## What the transfers post -/

variable {mint : Mint} {epoch user vault vault' amount fee : Nat} {toVault : Bool}

theorem withheldFee_of_getTransferFee (h : getTransferFee mint epoch amount = .ok fee) :
    withheldFee mint epoch amount = .ok fee := by
  unfold getTransferFee at h
  unfold withheldFee
  cases howner : mint.owner with
  | token => simpa [howner] using h
  | token2022 =>
    cases hconfig : mint.transferFeeConfig with
    | none => simpa [howner, hconfig] using h
    | some config => simpa [howner, hconfig] using h

theorem getTransferFee_le (h : getTransferFee mint epoch amount = .ok fee) : fee ≤ amount := by
  unfold getTransferFee at h
  split at h
  · simp only [pure_eq_ok] at h; omega
  · simp only [pure_eq_ok] at h; omega
  · exact TransferFeeConfig.fee_le_amount _ (unwrap_eq_ok.mp h)

/-- A transfer credits what arrives, if the vault has room for it. -/
theorem transferFromUserToPoolVault_spec (hv : vault < 2 ^ 64)
    (h : transferFromUserToPoolVault mint epoch user vault amount = .ok vault') :
    ∃ credited, (amount = 0 ∧ credited = 0 ∨
        amount ≠ 0 ∧ arriving mint epoch user amount = .ok credited) ∧
      vault + credited < 2 ^ 64 ∧ vault' = vault + credited := by
  unfold transferFromUserToPoolVault at h
  split at h
  · next h0 =>
    rw [pure_eq_ok] at h
    exact ⟨0, .inl ⟨h0, rfl⟩, by omega, h.symm⟩
  · next h0 =>
    simp only [bind_eq_ok, tokenCheck_eq_ok, checkedAdd_eq_some] at h
    obtain ⟨credited, hc, h64, rfl⟩ := h
    exact ⟨credited, .inr ⟨h0, hc⟩, h64, rfl⟩

/-- The same payment into another vault that has room for it. -/
theorem transferFromUserToPoolVault_of_room {vault₂ credited : Nat}
    (h : transferFromUserToPoolVault mint epoch user vault amount = .ok (vault + credited))
    (hroom : vault₂ + credited < 2 ^ 64) :
    transferFromUserToPoolVault mint epoch user vault₂ amount = .ok (vault₂ + credited) := by
  unfold transferFromUserToPoolVault at h ⊢
  by_cases h0 : amount = 0
  · rw [if_pos h0, pure_eq_ok] at h
    obtain rfl : credited = 0 := by omega
    rw [if_pos h0]
    rfl
  · rw [if_neg h0] at h ⊢
    simp only [bind_eq_ok, tokenCheck_eq_ok, checkedAdd_eq_some] at h ⊢
    obtain ⟨c, hc, _, heq⟩ := h
    obtain rfl : c = credited := by omega
    exact ⟨c, hc, hroom, rfl⟩

/-- The fee the program computes is the one the token program withholds. -/
theorem arriving_of_fee {credited : Nat} (hfee : getTransferFee mint epoch amount = .ok fee)
    (h : arriving mint epoch user amount = .ok credited) : credited = amount - fee := by
  simp only [arriving, bind_eq_ok, withheldFee_of_getTransferFee hfee, Except.ok.injEq,
    tokenCheck_eq_ok, checkedSub_eq_some] at h
  obtain ⟨_, _, _, rfl, _, rfl⟩ := h
  rfl

theorem transferFromPoolVaultToUser_eq_ok :
    transferFromPoolVaultToUser vault amount toVault = .ok vault' ↔
      amount ≤ vault ∧ vault' + (if toVault then 0 else amount) = vault := by
  by_cases h0 : amount = 0
  · simp only [transferFromPoolVaultToUser, h0, if_true, pure_eq_ok, ite_self]
    exact ⟨fun h => ⟨Nat.zero_le _, h.symm⟩, fun h => h.2.symm⟩
  · simp only [transferFromPoolVaultToUser, h0, if_false, bind_eq_ok, tokenCheck_eq_ok,
      checkedSub_eq_some, pure_eq_ok]
    constructor
    · intro h
      obtain ⟨_, ⟨hle, rfl⟩, rfl⟩ := h
      refine ⟨hle, ?_⟩
      split <;> omega
    · intro h
      obtain ⟨hle, hv⟩ := h
      refine ⟨_, ⟨hle, rfl⟩, ?_⟩
      cases toVault with
      | true => simpa using hv.symm
      | false =>
        simp only [Bool.false_eq_true, if_false] at hv ⊢
        omega

/-- A vault pays whatever it holds. -/
theorem transferFromPoolVaultToUser_of_le (h : amount ≤ vault) (toVault : Bool) :
    ∃ vault', transferFromPoolVaultToUser vault amount toVault = .ok vault' := by
  cases toVault with
  | true => exact ⟨vault, transferFromPoolVaultToUser_eq_ok.mpr ⟨h, by simp⟩⟩
  | false => exact ⟨vault - amount, transferFromPoolVaultToUser_eq_ok.mpr ⟨h, by simp [h]⟩⟩

@[simp] theorem tokenMintTo_eq_ok {supply supply' : Nat} :
    tokenMintTo supply amount = .ok supply' ↔
      supply + amount < 2 ^ 64 ∧ supply + amount = supply' := by
  simp [tokenMintTo]

@[simp] theorem tokenBurn_eq_ok {supply held supply' : Nat} :
    tokenBurn supply held amount = .ok supply' ↔
      amount ≤ held ∧ amount ≤ supply ∧ supply - amount = supply' := by
  simp [tokenBurn]

/-- What arrives of an amount grossed up by the inverse fee is the amount itself. -/
theorem withheldFee_of_inverse {post : Nat}
    (h : getTransferInverseFee mint epoch post = .ok fee)
    (hw : withheldFee mint epoch (post + fee) = .ok amount) : amount = fee := by
  unfold getTransferInverseFee at h
  unfold withheldFee at hw
  cases howner : mint.owner with
  | token =>
    simp only [howner, pure_eq_ok] at h hw
    omega
  | token2022 =>
    simp only [howner, bind_eq_ok, require_eq_ok] at h
    obtain ⟨_, _, h⟩ := h
    cases hconfig : mint.transferFeeConfig with
    | none =>
      simp only [howner, hconfig, pure_eq_ok] at h hw
      omega
    | some config =>
      simp only [howner, hconfig, tokenCheck_eq_ok] at h hw
      split at h
      · next hfull =>
        rw [pure_eq_ok] at h
        have := config.full_rate hfull hw
        omega
      · simp only [checkedInverseFee, bind_eq_ok, unwrap_eq_ok, checkedAdd_eq_some, require_eq_ok,
          pure_eq_ok] at h
        obtain ⟨inv, _, _, ⟨_, rfl⟩, check, hcheck, _, rfl, rfl⟩ := h
        exact Option.some.inj (hw.symm.trans hcheck)

/-- **A payment of `post` plus its inverse fee credits exactly `post`.** -/
theorem arriving_of_inverse {post credited : Nat}
    (hinv : getTransferInverseFee mint epoch post = .ok fee)
    (h : arriving mint epoch user (post + fee) = .ok credited) : credited = post := by
  simp only [arriving, bind_eq_ok, tokenCheck_eq_ok, checkedSub_eq_some] at h
  obtain ⟨_, _, withheld, hw, _, rfl⟩ := h
  rw [withheldFee_of_inverse hinv hw]
  omega

end NomadAmm

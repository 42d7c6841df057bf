import NomadAmm.Curve.Fees

/-! `states/config.rs` and the two instructions that write it. The asserts of the
setters are panics. A `Pubkey` is the number its 32 bytes spell. -/

namespace NomadAmm

open Exec

abbrev Pubkey := Nat

def Pubkey.default : Pubkey := 0

/-- `3kXrf8w8Z6EjLJU4S8dAkpRL2von8z7Eh3kJnFrmo7Z2`, the global admin. -/
def adminId : Pubkey :=
  18485174181795208097764502094121729809535399837562982110022504425371462230697

structure AmmConfig where
  disableCreatePool : Bool
  index : Nat
  tradeFeeRate : Nat
  protocolFeeRate : Nat
  fundFeeRate : Nat
  createPoolFee : Nat
  protocolOwner : Pubkey
  fundOwner : Pubkey
  creatorFeeRate : Nat
  deriving DecidableEq, Repr

def assert (p : Prop) [Decidable p] : Exec Unit := require p .panic

@[simp] theorem assert_eq_ok {p : Prop} [Decidable p] {u : Unit} : assert p = .ok u ↔ p :=
  require_eq_ok

def createAmmConfig (owner : Pubkey) (index tradeFeeRate protocolFeeRate fundFeeRate createPoolFee
    creatorFeeRate : Nat) : Exec AmmConfig := do
  require (owner = adminId) (.code .invalidOwner)
  assert (tradeFeeRate + creatorFeeRate < feeRateDenominatorValue)
  assert (protocolFeeRate ≤ feeRateDenominatorValue)
  assert (fundFeeRate ≤ feeRateDenominatorValue)
  assert (fundFeeRate + protocolFeeRate ≤ feeRateDenominatorValue)
  pure { disableCreatePool := false, index, tradeFeeRate, protocolFeeRate, fundFeeRate,
         createPoolFee, protocolOwner := owner, fundOwner := owner, creatorFeeRate }

namespace AmmConfig

def updateProtocolFeeRate (c : AmmConfig) (protocolFeeRate : Nat) : Exec AmmConfig := do
  assert (protocolFeeRate ≤ feeRateDenominatorValue)
  assert (protocolFeeRate + c.fundFeeRate ≤ feeRateDenominatorValue)
  pure { c with protocolFeeRate }

def updateTradeFeeRate (c : AmmConfig) (tradeFeeRate : Nat) : Exec AmmConfig := do
  assert (tradeFeeRate + c.creatorFeeRate < feeRateDenominatorValue)
  pure { c with tradeFeeRate }

def updateFundFeeRate (c : AmmConfig) (fundFeeRate : Nat) : Exec AmmConfig := do
  assert (fundFeeRate ≤ feeRateDenominatorValue)
  assert (fundFeeRate + c.protocolFeeRate ≤ feeRateDenominatorValue)
  pure { c with fundFeeRate }

def updateCreatorFeeRate (c : AmmConfig) (creatorFeeRate : Nat) : Exec AmmConfig := do
  assert (creatorFeeRate + c.tradeFeeRate < feeRateDenominatorValue)
  pure { c with creatorFeeRate }

def setNewProtocolOwner (c : AmmConfig) (newOwner : Pubkey) : Exec AmmConfig := do
  require (newOwner ≠ Pubkey.default) (.anchor .requireKeysNeqViolated)
  pure { c with protocolOwner := newOwner }

def setNewFundOwner (c : AmmConfig) (newFundOwner : Pubkey) : Exec AmmConfig := do
  require (newFundOwner ≠ Pubkey.default) (.anchor .requireKeysNeqViolated)
  pure { c with fundOwner := newFundOwner }

end AmmConfig

/-- `remaining` is the first of the remaining accounts, unwrapped when it is read. -/
def updateAmmConfig (owner : Pubkey) (c : AmmConfig) (param value : Nat)
    (remaining : Option Pubkey) : Exec AmmConfig := do
  require (owner = adminId) (.code .invalidOwner)
  match param with
  | 0 => c.updateTradeFeeRate value
  | 1 => c.updateProtocolFeeRate value
  | 2 => c.updateFundFeeRate value
  | 3 => do c.setNewProtocolOwner (← unwrap remaining)
  | 4 => do c.setNewFundOwner (← unwrap remaining)
  | 5 => pure { c with createPoolFee := value }
  | 6 => pure { c with disableCreatePool := value ≠ 0 }
  | 7 => c.updateCreatorFeeRate value
  | _ => .error (.code .invalidInput)

/-- A config account as `createAmmConfig` leaves it and `updateAmmConfig` changes it. -/
inductive AmmConfig.Reachable : AmmConfig → Prop
  | create {owner index trade protocol fund pool creator c} :
      createAmmConfig owner index trade protocol fund pool creator = .ok c → Reachable c
  | update {c c' owner param value remaining} : Reachable c →
      updateAmmConfig owner c param value remaining = .ok c' → Reachable c'

/-- What the setters keep between them: the static rates stay below 100 %. -/
structure AmmConfig.RatesBounded (c : AmmConfig) : Prop where
  trade : c.tradeFeeRate + c.creatorFeeRate < feeRateDenominatorValue
  shares : c.protocolFeeRate + c.fundFeeRate ≤ feeRateDenominatorValue

/-- What an update can do to the rates: one of the four, within its bound, or none. -/
theorem updateAmmConfig_cases {owner : Pubkey} {c c' : AmmConfig} {param value : Nat}
    {remaining : Option Pubkey} (h : updateAmmConfig owner c param value remaining = .ok c') :
    (param = 0 ∧ value + c.creatorFeeRate < feeRateDenominatorValue ∧
      c' = { c with tradeFeeRate := value }) ∨
    (param = 1 ∧ value + c.fundFeeRate ≤ feeRateDenominatorValue ∧
      c' = { c with protocolFeeRate := value }) ∨
    (param = 2 ∧ value + c.protocolFeeRate ≤ feeRateDenominatorValue ∧
      c' = { c with fundFeeRate := value }) ∨
    (param = 7 ∧ value + c.tradeFeeRate < feeRateDenominatorValue ∧
      c' = { c with creatorFeeRate := value }) ∨
    (param ≠ 7 ∧ c'.tradeFeeRate = c.tradeFeeRate ∧ c'.creatorFeeRate = c.creatorFeeRate ∧
      c'.protocolFeeRate = c.protocolFeeRate ∧ c'.fundFeeRate = c.fundFeeRate) := by
  simp only [updateAmmConfig, bind_eq_ok, require_eq_ok] at h
  obtain ⟨_, _, h⟩ := h
  split at h
  · simp only [AmmConfig.updateTradeFeeRate, bind_eq_ok, assert_eq_ok, pure_eq_ok] at h
    obtain ⟨_, hb, rfl⟩ := h
    exact .inl ⟨rfl, hb, rfl⟩
  · simp only [AmmConfig.updateProtocolFeeRate, bind_eq_ok, assert_eq_ok, pure_eq_ok] at h
    obtain ⟨_, _, _, hb, rfl⟩ := h
    exact .inr (.inl ⟨rfl, hb, rfl⟩)
  · simp only [AmmConfig.updateFundFeeRate, bind_eq_ok, assert_eq_ok, pure_eq_ok] at h
    obtain ⟨_, _, _, hb, rfl⟩ := h
    exact .inr (.inr (.inl ⟨rfl, hb, rfl⟩))
  · simp only [AmmConfig.setNewProtocolOwner, bind_eq_ok, unwrap_eq_ok, require_eq_ok,
      pure_eq_ok] at h
    obtain ⟨_, _, _, _, rfl⟩ := h
    exact .inr (.inr (.inr (.inr ⟨by decide, rfl, rfl, rfl, rfl⟩)))
  · simp only [AmmConfig.setNewFundOwner, bind_eq_ok, unwrap_eq_ok, require_eq_ok,
      pure_eq_ok] at h
    obtain ⟨_, _, _, _, rfl⟩ := h
    exact .inr (.inr (.inr (.inr ⟨by decide, rfl, rfl, rfl, rfl⟩)))
  · rw [pure_eq_ok] at h
    subst h
    exact .inr (.inr (.inr (.inr ⟨by decide, rfl, rfl, rfl, rfl⟩)))
  · rw [pure_eq_ok] at h
    subst h
    exact .inr (.inr (.inr (.inr ⟨by decide, rfl, rfl, rfl, rfl⟩)))
  · simp only [AmmConfig.updateCreatorFeeRate, bind_eq_ok, assert_eq_ok, pure_eq_ok] at h
    obtain ⟨_, hb, rfl⟩ := h
    exact .inr (.inr (.inr (.inl ⟨rfl, hb, rfl⟩)))
  · cases h

theorem AmmConfig.RatesBounded.update {owner : Pubkey} {c c' : AmmConfig} {param value : Nat}
    {remaining : Option Pubkey} (hc : c.RatesBounded)
    (h : updateAmmConfig owner c param value remaining = .ok c') : c'.RatesBounded := by
  obtain ⟨ht, hs⟩ := hc
  rcases updateAmmConfig_cases h with ⟨_, hb, rfl⟩ | ⟨_, hb, rfl⟩ | ⟨_, hb, rfl⟩ | ⟨_, hb, rfl⟩ |
    ⟨_, h1, h2, h3, h4⟩
  · exact ⟨hb, hs⟩
  · exact ⟨ht, hb⟩
  · exact ⟨ht, by dsimp only; omega⟩
  · exact ⟨by dsimp only; omega, hs⟩
  · exact ⟨by omega, by omega⟩

/-- **Every config account keeps its rates bounded.** -/
theorem AmmConfig.Reachable.ratesBounded {c : AmmConfig} (h : c.Reachable) : c.RatesBounded := by
  induction h with
  | create h =>
    simp only [createAmmConfig, bind_eq_ok, require_eq_ok, assert_eq_ok, pure_eq_ok] at h
    obtain ⟨_, _, _, ht, _, _, _, _, _, hs, rfl⟩ := h
    exact ⟨ht, by dsimp only; omega⟩
  | update _ h ih => exact ih.update h

end NomadAmm

import NomadAmm.Error
import NomadAmm.Lib.Rounding

/-! `curve/constant_product.rs`: what a number of LP tokens is worth in the two
trading tokens, and the constant-product swap, which is the tests' reference only; the
handlers price with the oracle curve. -/

namespace NomadAmm

open Lib.Checked Lib.Rounding Exec

inductive RoundDirection
  | floor
  | ceiling
  deriving DecidableEq, Repr

structure TradingTokenResult where
  token0Amount : Nat
  token1Amount : Nat
  deriving DecidableEq, Repr

/-- `u128::checked_ceil_div` of `utils/math.rs`. -/
def checkedCeilDiv (a b : Nat) : Option Nat := do
  let quotient ← checkedDiv a b
  let remainder ← checkedRem a b
  if remainder ≠ 0 then checkedAdd 128 quotient 1 else some quotient

theorem checkedCeilDiv_eq {a b : Nat} (ha : a < 2 ^ 128) (hb : 0 < b) :
    checkedCeilDiv a b = some (ceilDiv a b) := by
  simp only [checkedCeilDiv, checkedDiv, checkedRem, hb.ne', if_false, bind, Option.bind_some]
  rw [ceilDiv_eq a hb]
  by_cases hr : a % b = 0
  · simp [hr]
  · have hone : b ≠ 1 := by
      intro h
      rw [h, Nat.mod_one] at hr
      exact hr rfl
    have hhalf : a / b ≤ a / 2 := Nat.div_le_div_left (by omega) (by norm_num)
    rw [if_pos hr, if_neg hr, checkedAdd_eq_some]
    exact ⟨by omega, rfl⟩

namespace ConstantProductCurve

def swapBaseInputWithoutFees (inputAmount inputVaultAmount outputVaultAmount : Nat) :
    Exec Nat := do
  let numerator ← unwrap (checkedMul 128 inputAmount outputVaultAmount)
  let denominator ← unwrap (checkedAdd 128 inputVaultAmount inputAmount)
  unwrap (checkedDiv numerator denominator)

def swapBaseOutputWithoutFees (outputAmount inputVaultAmount outputVaultAmount : Nat) :
    Exec Nat := do
  let numerator ← unwrap (checkedMul 128 inputVaultAmount outputAmount)
  let denominator ← unwrap (checkedSub outputVaultAmount outputAmount)
  unwrap (checkedCeilDiv numerator denominator)

/-- One token's share. A ceiling leaves a zero share at zero, for the caller to
reject. The increment cannot overflow: a remainder means a divisor above one. -/
def tokenShare (lpTokenAmount lpTokenSupply vaultAmount : Nat) (roundDirection : RoundDirection) :
    Option Nat := do
  let product ← checkedMul 128 lpTokenAmount vaultAmount
  let amount ← checkedDiv product lpTokenSupply
  match roundDirection with
  | .floor => some amount
  | .ceiling =>
    let remainder ← checkedRem product lpTokenSupply
    some (if 0 < remainder ∧ 0 < amount then amount + 1 else amount)

def lpTokensToTradingTokens (lpTokenAmount lpTokenSupply token0VaultAmount token1VaultAmount : Nat)
    (roundDirection : RoundDirection) : Option TradingTokenResult := do
  let token0Amount ← tokenShare lpTokenAmount lpTokenSupply token0VaultAmount roundDirection
  let token1Amount ← tokenShare lpTokenAmount lpTokenSupply token1VaultAmount roundDirection
  some { token0Amount, token1Amount }

variable {lp supply vault t x y a o : Nat}

theorem swapBaseInputWithoutFees_of_fits (hnum : a * y < 2 ^ 128) (hden : x + a < 2 ^ 128)
    (hpos : 0 < x + a) : swapBaseInputWithoutFees a x y = .ok (productOut x y a) := by
  simp only [swapBaseInputWithoutFees, bind_eq_ok, unwrap_eq_ok, checkedMul_eq_some,
    checkedAdd_eq_some, checkedDiv_eq_some]
  exact ⟨_, ⟨hnum, rfl⟩, _, ⟨hden, rfl⟩, hpos.ne', by rw [productOut, Nat.mul_comm a]⟩

theorem swapBaseOutputWithoutFees_of_fits (hnum : x * o < 2 ^ 128) (ho : o < y) :
    swapBaseOutputWithoutFees o x y = .ok (productIn x y o) := by
  simp only [swapBaseOutputWithoutFees, bind_eq_ok, unwrap_eq_ok, checkedMul_eq_some,
    checkedSub_eq_some]
  exact ⟨_, ⟨hnum, rfl⟩, _, ⟨ho.le, rfl⟩, checkedCeilDiv_eq hnum (by omega)⟩

theorem tokenShare_floor :
    tokenShare lp supply vault .floor = some t ↔
      lp * vault < 2 ^ 128 ∧ supply ≠ 0 ∧ lp * vault / supply = t := by
  simp only [tokenShare, bind, Option.bind_eq_some_iff, checkedMul_eq_some, checkedDiv_eq_some,
    Option.some.injEq]
  constructor
  · intro h
    obtain ⟨_, ⟨h, rfl⟩, _, ⟨hs, rfl⟩, ht⟩ := h
    exact ⟨h, hs, ht⟩
  · intro h
    obtain ⟨h, hs, ht⟩ := h
    exact ⟨_, ⟨h, rfl⟩, _, ⟨hs, rfl⟩, ht⟩

/-- Only an overflow or an empty supply leaves a share uncomputed. -/
theorem tokenShare_of_fits (hfit : lp * vault < 2 ^ 128) (hs : supply ≠ 0)
    (dir : RoundDirection) : ∃ t, tokenShare lp supply vault dir = some t := by
  have hproduct : checkedMul 128 lp vault = some (lp * vault) :=
    checkedMul_eq_some.mpr ⟨hfit, rfl⟩
  cases dir with
  | floor => exact ⟨_, tokenShare_floor.mpr ⟨hfit, hs, rfl⟩⟩
  | ceiling => simp [tokenShare, hproduct, checkedDiv, checkedRem, hs]

/-- A non-zero ceiling share is the exact share rounded up. -/
theorem tokenShare_ceiling (h : tokenShare lp supply vault .ceiling = some t) (ht : t ≠ 0) :
    supply ≠ 0 ∧ t = ceilDiv (lp * vault) supply := by
  simp only [tokenShare, bind, Option.bind_eq_some_iff, checkedMul_eq_some, checkedDiv_eq_some,
    checkedRem_eq_some, Option.some.injEq] at h
  obtain ⟨_, ⟨_, rfl⟩, _, ⟨hs, rfl⟩, _, ⟨_, rfl⟩, rfl⟩ := h
  refine ⟨hs, ?_⟩
  rw [ceilDiv_eq _ (Nat.pos_of_ne_zero hs)]
  by_cases hr : lp * vault % supply = 0
  · simp [hr]
  · have hq : 0 < lp * vault / supply := by
      split at ht
      · next h => exact h.2
      · exact Nat.pos_of_ne_zero ht
    simp [hr, hq, Nat.pos_of_ne_zero hr]

/-- Where the floored share is not zero, the other direction gives the exact share rounded up. -/
theorem tokenShare_ceiling_of_floor (h : tokenShare lp supply vault .floor = some t) (ht : t ≠ 0) :
    tokenShare lp supply vault .ceiling = some (ceilDiv (lp * vault) supply) := by
  obtain ⟨hfits, hs, rfl⟩ := tokenShare_floor.mp h
  have hproduct : checkedMul 128 lp vault = some (lp * vault) := checkedMul_eq_some.mpr ⟨hfits, rfl⟩
  simp only [tokenShare, hproduct, checkedDiv, checkedRem, hs, if_false, bind, Option.bind_some,
    ceilDiv_eq _ (Nat.pos_of_ne_zero hs)]
  by_cases hr : lp * vault % supply = 0
  · rw [if_neg (by omega), if_pos hr]
  · rw [if_pos ⟨Nat.pos_of_ne_zero hr, Nat.pos_of_ne_zero ht⟩, if_neg hr]

theorem lpTokensToTradingTokens_eq_some {v0 v1 : Nat} {dir : RoundDirection}
    {res : TradingTokenResult} :
    lpTokensToTradingTokens lp supply v0 v1 dir = some res ↔
      tokenShare lp supply v0 dir = some res.token0Amount ∧
      tokenShare lp supply v1 dir = some res.token1Amount := by
  simp only [lpTokensToTradingTokens, bind, Option.bind_eq_some_iff, Option.some.injEq]
  constructor
  · intro h
    obtain ⟨_, h0, _, h1, rfl⟩ := h
    exact ⟨h0, h1⟩
  · intro h
    obtain ⟨h0, h1⟩ := h
    exact ⟨_, h0, _, h1, rfl⟩

end ConstantProductCurve

end NomadAmm

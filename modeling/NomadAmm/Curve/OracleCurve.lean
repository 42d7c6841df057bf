import Mathlib.Data.Nat.Sqrt
import NomadAmm.Error
import NomadAmm.Lib.Rounding
import NomadAmm.Lib.Truncation

/-! `curve/oracle_curve.rs`: the oracle price as a raw fraction, the inventory
skew, and the swap kernels on virtual reserves around that price. Unsigned
integers are `Nat` under checked operations of their width, `i64` mantissas and
`i32` basis points are `Int`. -/

namespace NomadAmm

open Lib.Checked Lib.Rounding Lib.Truncation Exec

/-- `raw_token_1 per raw_token_0` as an exact fraction. -/
def pythPriceToRawFraction (mantissa exponent : Int) (mint0Decimals mint1Decimals : Nat) :
    Option (Nat × Nat) :=
  if mantissa ≤ 0 then none
  else
    let m := mantissa.toNat
    let effExp : Int := exponent + mint1Decimals - mint0Decimals
    if 0 ≤ effExp then do
      let factor ← checkedPow 128 10 effExp.toNat
      let pNum ← checkedMul 128 m factor
      some (pNum, 1)
    else do
      let factor ← checkedPow 128 10 (-effExp).toNat
      some (m, factor)

/-! ## Inventory skew -/

/-- Called with a non-zero denominator only; the plain division would panic on zero. -/
def imbalanceBpsU128 (reserve0Net reserve1Net canonicalNum canonicalDen : Nat) : Option Int := do
  let prod ← checkedMul 128 reserve0Net canonicalNum
  let value0 := prod / canonicalDen
  let sum ← checkedAdd 128 value0 reserve1Net
  if sum = 0 then none
  else
    let (diff, sign) : Nat × Int :=
      if reserve1Net ≤ value0 then (value0 - reserve1Net, 1) else (reserve1Net - value0, -1)
    let scaled ← checkedMul 128 diff 10000
    let magnitude : Nat := min (scaled / sum % 2 ^ 64) 10000
    some (sign * magnitude)

/-- `as_u64` panics on a wider value. -/
def imbalanceBpsU256 (reserve0Net reserve1Net canonicalNum canonicalDen : Nat) : Exec Int := do
  let prod ← orNone (checkedMul 256 reserve0Net canonicalNum)
  let value0 ← orNone (checkedDiv prod canonicalDen)
  let sum ← orNone (checkedAdd 256 value0 reserve1Net)
  require (sum ≠ 0) .none
  let (diff, sign) : Nat × Int :=
    if reserve1Net ≤ value0 then (value0 - reserve1Net, 1) else (reserve1Net - value0, -1)
  let scaled ← orNone (checkedMul 256 diff 10000)
  let ratio ← orNone (checkedDiv scaled sum)
  let magnitude ← unwrap (tryFrom 64 ratio)
  pure (sign * (min magnitude 10000 : Nat))

/-- The wide path runs whenever the `u128` one gives no answer. -/
def computeInventoryImbalanceBps (reserve0Net reserve1Net canonicalNum canonicalDen : Nat) :
    Exec Int :=
  if canonicalDen = 0 then .error .none
  else match imbalanceBpsU128 reserve0Net reserve1Net canonicalNum canonicalDen with
    | some result => .ok result
    | none => imbalanceBpsU256 reserve0Net reserve1Net canonicalNum canonicalDen

/-- `saturating_mul` on `u64`, then the cap; a token_0 surplus lowers the quote. -/
def computeInventorySkewBps (imbalanceBps : Int) (deadzoneBps bpsPerPct maxBps : Nat) : Int :=
  let magnitude := imbalanceBps.natAbs
  if magnitude ≤ deadzoneBps then 0
  else
    let excess := magnitude - deadzoneBps
    let skewMag := min (min (excess * bpsPerPct) (2 ^ 64 - 1) / 100) maxBps
    if 0 < imbalanceBps then -(skewMag : Int) else skewMag

def shiftMantissaBySignedBps (mantissa deltaBps : Int) : Option Int :=
  if deltaBps = 0 then some mantissa
  else do
    let factor ← checkedInt 128 (10000 + deltaBps)
    if factor ≤ 0 then none
    else
      let product ← checkedInt 128 (mantissa * factor)
      let result := product.tdiv 10000
      if result ≤ 0 ∨ 2 ^ 63 - 1 < result then none else some result

section

variable {mantissa exponent delta shifted low high low' high' : Int} {dec0 dec1 n d : Nat}

/-- A raw fraction is the mantissa with the power of ten on the side its sign says. -/
theorem pythPriceToRawFraction_eq_some :
    pythPriceToRawFraction mantissa exponent dec0 dec1 = some (n, d) ↔
      0 < mantissa ∧
        if 0 ≤ exponent + dec1 - dec0 then
          10 ^ (exponent + dec1 - dec0).toNat < 2 ^ 128 ∧ n < 2 ^ 128 ∧
            n = mantissa.toNat * 10 ^ (exponent + dec1 - dec0).toNat ∧ d = 1
        else
          d < 2 ^ 128 ∧ n = mantissa.toNat ∧ d = 10 ^ (-(exponent + dec1 - dec0)).toNat := by
  unfold pythPriceToRawFraction
  by_cases hpos : mantissa ≤ 0
  · simp only [hpos, if_true, reduceCtorEq, false_iff, not_and]
    omega
  · by_cases hexp : 0 ≤ exponent + dec1 - dec0
    · simp only [hpos, hexp, if_false, if_true, bind, Option.bind_eq_some_iff, checkedPow_eq_some,
        checkedMul_eq_some, Option.some.injEq, Prod.mk.injEq]
      constructor
      · intro h
        obtain ⟨_, ⟨hfactor, rfl⟩, _, ⟨hn, rfl⟩, rfl, rfl⟩ := h
        exact ⟨by omega, hfactor, hn, rfl, rfl⟩
      · intro h
        obtain ⟨_, hfactor, hn, rfl, rfl⟩ := h
        exact ⟨_, ⟨hfactor, rfl⟩, _, ⟨hn, rfl⟩, rfl, rfl⟩
    · simp only [hpos, hexp, if_false, bind, Option.bind_eq_some_iff, checkedPow_eq_some,
        Option.some.injEq, Prod.mk.injEq]
      constructor
      · intro h
        obtain ⟨_, ⟨hfactor, rfl⟩, rfl, rfl⟩ := h
        exact ⟨by omega, hfactor, rfl, rfl⟩
      · intro h
        obtain ⟨_, hfactor, rfl, rfl⟩ := h
        exact ⟨_, ⟨hfactor, rfl⟩, rfl, rfl⟩

theorem pythPriceToRawFraction_pos
    (h : pythPriceToRawFraction mantissa exponent dec0 dec1 = some (n, d)) : 0 < d := by
  obtain ⟨_, h⟩ := pythPriceToRawFraction_eq_some.mp h
  split at h
  · obtain ⟨_, _, _, rfl⟩ := h
    exact Nat.one_pos
  · obtain ⟨_, _, rfl⟩ := h
    positivity

/-- A shift multiplies, without a shift by one, and truncates. -/
theorem shiftMantissa_spec (h : shiftMantissaBySignedBps mantissa delta = some shifted) :
    0 < 10000 + delta ∧ shifted = (mantissa * (10000 + delta)).tdiv 10000 ∧
      (delta = 0 ∨ 0 < shifted ∧ shifted < 2 ^ 63) := by
  unfold shiftMantissaBySignedBps at h
  by_cases hzero : delta = 0
  · rw [if_pos hzero] at h
    cases h
    refine ⟨by omega, ?_, .inl hzero⟩
    rw [hzero, Int.add_zero, Int.mul_tdiv_cancel _ (by decide)]
  · rw [if_neg hzero] at h
    simp only [bind, Option.bind_eq_some_iff, checkedInt_eq_some] at h
    obtain ⟨_, ⟨_, rfl⟩, h⟩ := h
    split at h
    · cases h
    · next hfactor =>
      simp only [Option.bind_eq_some_iff, checkedInt_eq_some] at h
      obtain ⟨_, ⟨_, rfl⟩, h⟩ := h
      split at h
      · cases h
      · next hrange =>
        cases h
        exact ⟨by omega, rfl, .inr ⟨by omega, by omega⟩⟩

theorem shiftMantissa_pos (hpos : 0 < mantissa)
    (h : shiftMantissaBySignedBps mantissa delta = some shifted) : 0 < shifted := by
  obtain ⟨_, heq, hzero | ⟨hshifted, _⟩⟩ := shiftMantissa_spec h
  · rw [hzero, Int.add_zero, Int.mul_tdiv_cancel _ (by decide)] at heq
    omega
  · exact hshifted

/-- One skew keeps the order of two mantissas. -/
theorem shiftMantissa_mono (hle : low ≤ high)
    (hlow : shiftMantissaBySignedBps low delta = some low')
    (hhigh : shiftMantissaBySignedBps high delta = some high') : low' ≤ high' := by
  obtain ⟨hfactor, rfl, _⟩ := shiftMantissa_spec hlow
  obtain ⟨_, rfl, _⟩ := shiftMantissa_spec hhigh
  exact Int.tdiv_le_tdiv (by decide) (Int.mul_le_mul_of_nonneg_right hle hfactor.le)

/-- A lower skew moves a positive mantissa lower. -/
theorem shiftMantissa_mono_delta {delta' shifted' : Int} (hpos : 0 ≤ mantissa)
    (hle : delta' ≤ delta) (h : shiftMantissaBySignedBps mantissa delta = some shifted)
    (h' : shiftMantissaBySignedBps mantissa delta' = some shifted') : shifted' ≤ shifted := by
  obtain ⟨_, rfl, _⟩ := shiftMantissa_spec h
  obtain ⟨_, rfl, _⟩ := shiftMantissa_spec h'
  exact Int.tdiv_le_tdiv (by decide) (Int.mul_le_mul_of_nonneg_left (by omega) hpos)

end

/-! ## The curve -/

/-- Virtual reserves around the oracle rate: one square root, the other reserve
derived from it. `integer_sqrt` is the floor square root. -/
def virtualReserves (inputVaultAmount outputVaultAmount spotNum spotDen : Nat) :
    Option (Nat × Nat) := do
  let xy ← checkedMul 256 inputVaultAmount outputVaultAmount
  let scaled ← checkedMul 256 xy spotDen
  let ratio ← checkedDiv scaled spotNum
  let xV := Nat.sqrt ratio
  let raised ← checkedMul 256 xV spotNum
  let yV ← checkedDiv raised spotDen
  some (xV, yV)

namespace OracleCurve

/-- `as_u128` panics on a wider value. -/
def swapBaseInputWithoutFees
    (inputAmount inputVaultAmount outputVaultAmount spotNum spotDen : Nat) : Exec Nat := do
  require (spotNum ≠ 0 ∧ spotDen ≠ 0) .none
  require (inputVaultAmount ≠ 0 ∧ outputVaultAmount ≠ 0) .none
  let (xV, yV) ← orNone (virtualReserves inputVaultAmount outputVaultAmount spotNum spotDen)
  let newXV ← orNone (checkedAdd 256 xV inputAmount)
  let numerator ← orNone (checkedMul 256 yV inputAmount)
  let deltaY ← orNone (checkedDiv numerator newXV)
  -- the pool cannot pay out more than it actually holds
  require (deltaY < outputVaultAmount) .none
  unwrap (tryFrom 128 deltaY)

/-- The quotient of a division raised by one when something is left over. -/
def roundUpQuotient (q r : Nat) : Option Nat := if r = 0 then some q else checkedAdd 256 q 1

def swapBaseOutputWithoutFees
    (outputAmount inputVaultAmount outputVaultAmount spotNum spotDen : Nat) : Exec Nat := do
  require (spotNum ≠ 0 ∧ spotDen ≠ 0) .none
  require (inputVaultAmount ≠ 0 ∧ outputVaultAmount ≠ 0) .none
  let (xV, yV) ← orNone (virtualReserves inputVaultAmount outputVaultAmount spotNum spotDen)
  require (outputAmount < yV ∧ outputAmount < outputVaultAmount) .none
  let numerator ← orNone (checkedMul 256 xV outputAmount)
  let denominator ← orNone (checkedSub yV outputAmount)
  let q ← orNone (checkedDiv numerator denominator)
  let r ← orNone (checkedRem numerator denominator)
  let deltaX ← orNone (roundUpQuotient q r)
  require (deltaX ≤ 2 ^ 128 - 1) .none
  unwrap (tryFrom 128 deltaX)

end OracleCurve

/-! ## What the virtual reserves and the kernels compute -/

section

variable {x y n d xV yV a o : Nat}

theorem virtualReserves_eq_some : virtualReserves x y n d = some (xV, yV) ↔
    x * y * d < 2 ^ 256 ∧ x * y < 2 ^ 256 ∧ n ≠ 0 ∧ d ≠ 0 ∧ Nat.sqrt (x * y * d / n) * n < 2 ^ 256 ∧
      xV = Nat.sqrt (x * y * d / n) ∧ yV = xV * n / d := by
  simp only [virtualReserves, bind, Option.bind_eq_some_iff, checkedMul_eq_some, checkedDiv_eq_some,
    Option.some.injEq, Prod.mk.injEq]
  constructor
  · intro h
    obtain ⟨_, ⟨hxy, rfl⟩, _, ⟨hs, rfl⟩, _, ⟨hn, rfl⟩, _, ⟨hr, rfl⟩, _, ⟨hd, rfl⟩, rfl, rfl⟩ := h
    exact ⟨hs, hxy, hn, hd, hr, rfl, rfl⟩
  · intro h
    obtain ⟨hs, hxy, hn, hd, hr, rfl, rfl⟩ := h
    exact ⟨_, ⟨hxy, rfl⟩, _, ⟨hs, rfl⟩, _, ⟨hn, rfl⟩, _, ⟨hr, rfl⟩, _, ⟨hd, rfl⟩, rfl, rfl⟩

/-- The virtual spot is never above the oracle spot. -/
theorem virtualReserves_spot (h : virtualReserves x y n d = some (xV, yV)) : yV * d ≤ xV * n := by
  obtain ⟨_, _, _, _, _, _, rfl⟩ := virtualReserves_eq_some.mp h
  exact Nat.div_mul_le_self _ _

theorem virtualReserves_fst_lt (h : virtualReserves x y n d = some (xV, yV)) : xV < 2 ^ 128 := by
  obtain ⟨hs, _, _, _, _, rfl, _⟩ := virtualReserves_eq_some.mp h
  rw [Nat.sqrt_lt]
  calc x * y * d / n ≤ x * y * d := Nat.div_le_self _ _
    _ < 2 ^ 256 := hs
    _ = 2 ^ 128 * 2 ^ 128 := by norm_num

namespace OracleCurve

theorem swapBaseInputWithoutFees_spec (h : swapBaseInputWithoutFees a x y n d = .ok o) :
    ∃ xV yV, virtualReserves x y n d = some (xV, yV) ∧ 0 < xV + a ∧ o = productOut xV yV a ∧
      o < y := by
  simp only [swapBaseInputWithoutFees, bind_eq_ok, require_eq_ok, orNone_eq_ok, unwrap_eq_ok,
    checkedAdd_eq_some, checkedMul_eq_some, checkedDiv_eq_some, tryFrom_eq_some] at h
  obtain ⟨_, _, _, _, ⟨xV, yV⟩, hv, _, ⟨_, rfl⟩, _, ⟨_, rfl⟩, _, ⟨hpos, rfl⟩, _, hlt, _, rfl⟩ := h
  exact ⟨xV, yV, hv, by omega, rfl, hlt⟩

theorem swapBaseOutputWithoutFees_spec (h : swapBaseOutputWithoutFees o x y n d = .ok a) :
    ∃ xV yV, virtualReserves x y n d = some (xV, yV) ∧ o < yV ∧ o < y ∧ a = productIn xV yV o := by
  simp only [swapBaseOutputWithoutFees, bind_eq_ok, require_eq_ok, orNone_eq_ok, unwrap_eq_ok,
    checkedSub_eq_some, checkedMul_eq_some, checkedDiv_eq_some, checkedRem_eq_some,
    tryFrom_eq_some] at h
  obtain ⟨_, _, _, _, ⟨xV, yV⟩, hv, _, ⟨hyV, hy⟩, _, ⟨_, rfl⟩, _, ⟨_, rfl⟩, _, ⟨_, rfl⟩, _,
    ⟨_, rfl⟩, dx, hdx, _, _, _, rfl⟩ := h
  refine ⟨xV, yV, hv, hyV, hy, ?_⟩
  rw [productIn, ceilDiv_eq _ (by omega)]
  unfold roundUpQuotient at hdx
  split at hdx
  · next hr => rw [if_pos hr]; exact (Option.some.inj hdx).symm
  · next hr => rw [if_neg hr]; exact (checkedAdd_eq_some.mp hdx).2.symm

theorem roundUpQuotient_eq {k : Nat} (hd : 0 < d) (hk : k + 1 < 2 ^ 256) :
    roundUpQuotient (k / d) (k % d) = some (ceilDiv k d) := by
  have hle := Nat.div_le_self k d
  rw [roundUpQuotient, ceilDiv_eq k hd]
  split
  · rfl
  · exact checkedAdd_eq_some.mpr ⟨by omega, rfl⟩

/-- The exact-out kernel answers whenever the exact value fits. -/
theorem swapBaseOutputWithoutFees_of_fits (hv : virtualReserves x y n d = some (xV, yV))
    (hx : x ≠ 0) (hy : y ≠ 0) (ho : o < yV) (hoy : o < y) (ho64 : o < 2 ^ 64)
    (hfit : productIn xV yV o < 2 ^ 128) :
    swapBaseOutputWithoutFees o x y n d = .ok (productIn xV yV o) := by
  obtain ⟨_, _, hn, hd, _, _, _⟩ := virtualReserves_eq_some.mp hv
  have hxV := virtualReserves_fst_lt hv
  have hnum : xV * o + 1 < 2 ^ 256 := by
    have hle : xV * o ≤ 2 ^ 128 * 2 ^ 64 := Nat.mul_le_mul hxV.le (by omega)
    omega
  simp only [swapBaseOutputWithoutFees, bind_eq_ok, require_eq_ok, orNone_eq_ok, unwrap_eq_ok,
    checkedSub_eq_some, checkedMul_eq_some, checkedDiv_eq_some, checkedRem_eq_some,
    tryFrom_eq_some]
  exact ⟨(), ⟨hn, hd⟩, (), ⟨hx, hy⟩, (xV, yV), hv, (), ⟨ho, hoy⟩, _,
    ⟨(Nat.lt_succ_self _).trans hnum, rfl⟩, _,
    ⟨ho.le, rfl⟩, _, ⟨by omega, rfl⟩, _, ⟨by omega, rfl⟩, _,
    roundUpQuotient_eq (by omega) hnum, (), Nat.le_sub_one_of_lt hfit, hfit, rfl⟩

/-- Exact-in never pays above the oracle spot. -/
theorem swapBaseInputWithoutFees_spot (h : swapBaseInputWithoutFees a x y n d = .ok o) :
    o * d ≤ a * n := by
  obtain ⟨xV, yV, hv, hpos, rfl, _⟩ := swapBaseInputWithoutFees_spec h
  exact productOut_mul_le hpos (virtualReserves_spot hv)

/-- Exact-out never charges below the oracle spot. -/
theorem swapBaseOutputWithoutFees_spot (h : swapBaseOutputWithoutFees o x y n d = .ok a) :
    o * d ≤ a * n := by
  obtain ⟨xV, yV, hv, hyV, _, rfl⟩ := swapBaseOutputWithoutFees_spec h
  exact mul_le_productIn_mul hyV (virtualReserves_spot hv)

end OracleCurve

end

end NomadAmm

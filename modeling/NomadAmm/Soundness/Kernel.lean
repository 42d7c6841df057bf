import NomadAmm.Curve.ConstantProduct
import NomadAmm.Curve.OracleCurve

/-! The kernels on admissible inputs. Widths alone do not keep the virtual reserves within
128 bits; the square root does, and from there on nothing overflows: a kernel answers, or
it refuses for one of the reasons it names. On a pool balanced at the oracle price the
virtual reserves are the real ones, and the oracle curve is the constant-product curve. -/

namespace NomadAmm.Soundness.Kernel

open Lib.Checked Lib.Rounding Exec OracleCurve

variable {x y n d a o xV yV : Nat}

/-- Operands of a kernel, as the types of the source bound them. -/
structure Admissible (x y n d : Nat) : Prop where
  x_pos : 1 ≤ x
  x_lt : x < 2 ^ 64
  y_pos : 1 ≤ y
  y_lt : y < 2 ^ 64
  n_pos : 1 ≤ n
  n_lt : n < 2 ^ 128
  d_pos : 1 ≤ d
  d_lt : d < 2 ^ 128

/-- The input side of the virtual reserves, and the output side derived from it. -/
def virtualX (x y n d : Nat) : Nat := Nat.sqrt (x * y * d / n)

def virtualY (x y n d : Nat) : Nat := virtualX x y n d * n / d

/-! ## The virtual reserves fit -/

theorem Admissible.xy_lt (h : Admissible x y n d) : x * y < 2 ^ 128 := by
  calc x * y < 2 ^ 64 * 2 ^ 64 := Nat.mul_lt_mul'' h.x_lt h.y_lt
    _ = 2 ^ 128 := by norm_num

theorem Admissible.xyd_lt (h : Admissible x y n d) : x * y * d < 2 ^ 256 := by
  calc x * y * d < 2 ^ 128 * 2 ^ 128 := Nat.mul_lt_mul'' h.xy_lt h.d_lt
    _ = 2 ^ 256 := by norm_num

/-- The square root stays below what it was taken of. -/
theorem virtualX_sq_mul_le (x y n d : Nat) : virtualX x y n d * virtualX x y n d * n ≤ x * y * d :=
  (Nat.mul_le_mul_right n (Nat.sqrt_le _)).trans (Nat.div_mul_le_self _ _)

theorem Admissible.virtualX_lt (h : Admissible x y n d) : virtualX x y n d < 2 ^ 128 := by
  rw [virtualX, Nat.sqrt_lt]
  calc x * y * d / n ≤ x * y * d := Nat.div_le_self _ _
    _ < 2 ^ 256 := h.xyd_lt
    _ = 2 ^ 128 * 2 ^ 128 := by norm_num

theorem Admissible.raised_lt (h : Admissible x y n d) : virtualX x y n d * n < 2 ^ 256 := by
  calc virtualX x y n d * n < 2 ^ 128 * 2 ^ 128 := Nat.mul_lt_mul'' h.virtualX_lt h.n_lt
    _ = 2 ^ 256 := by norm_num

/-- The derived reserve stays below the other root. -/
theorem virtualY_sq_mul_le (x y n : Nat) (hd : 0 < d) :
    virtualY x y n d * virtualY x y n d * d ≤ x * y * n := by
  have hdiv : virtualY x y n d * d ≤ virtualX x y n d * n := Nat.div_mul_le_self _ _
  refine Nat.le_of_mul_le_mul_right ?_ hd
  calc virtualY x y n d * virtualY x y n d * d * d
      = virtualY x y n d * d * (virtualY x y n d * d) := by ring
    _ ≤ virtualX x y n d * n * (virtualX x y n d * n) := Nat.mul_le_mul hdiv hdiv
    _ = virtualX x y n d * virtualX x y n d * n * n := by ring
    _ ≤ x * y * d * n := Nat.mul_le_mul_right _ (virtualX_sq_mul_le x y n d)
    _ = x * y * n * d := by ring

theorem Admissible.virtualY_lt (h : Admissible x y n d) : virtualY x y n d < 2 ^ 128 := by
  by_contra hge
  have hsq : 2 ^ 128 * 2 ^ 128 ≤ virtualY x y n d * virtualY x y n d :=
    Nat.mul_le_mul (by omega) (by omega)
  have hxyn : x * y * n < 2 ^ 128 * 2 ^ 128 := Nat.mul_lt_mul'' h.xy_lt h.n_lt
  have hle := (Nat.le_mul_of_pos_right _ h.d_pos).trans (virtualY_sq_mul_le x y n h.d_pos)
  exact absurd (hsq.trans hle) (by omega)

theorem Admissible.virtualReserves_eq (h : Admissible x y n d) :
    virtualReserves x y n d = some (virtualX x y n d, virtualY x y n d) :=
  virtualReserves_eq_some.mpr ⟨h.xyd_lt, h.xy_lt.trans (by norm_num), by have := h.n_pos; omega,
    by have := h.d_pos; omega, h.raised_lt, rfl, rfl⟩

/-! ## The kernels -/

theorem Admissible.nonzero (h : Admissible x y n d) : (n ≠ 0 ∧ d ≠ 0) ∧ x ≠ 0 ∧ y ≠ 0 := by
  obtain ⟨hx, _, hy, _, hn, _, hd, _⟩ := h
  omega

theorem Admissible.inputNumerator_lt (h : Admissible x y n d) (ha : a < 2 ^ 64) :
    virtualY x y n d * a < 2 ^ 256 := by
  calc virtualY x y n d * a < 2 ^ 128 * 2 ^ 64 := Nat.mul_lt_mul'' h.virtualY_lt ha
    _ < 2 ^ 256 := by norm_num

theorem Admissible.outputNumerator_lt (h : Admissible x y n d) (ho : o < 2 ^ 128) :
    virtualX x y n d * o + 1 < 2 ^ 256 := by
  have hle : virtualX x y n d * o ≤ (2 ^ 128 - 1) * (2 ^ 128 - 1) :=
    Nat.mul_le_mul (by have := h.virtualX_lt; omega) (by omega)
  omega

/-- Exact-in refuses an empty curve and an output the pool does not hold, nothing else. -/
theorem Admissible.swapBaseInput_eq (h : Admissible x y n d) (ha : a < 2 ^ 64) :
    OracleCurve.swapBaseInputWithoutFees a x y n d =
      if virtualX x y n d + a = 0 ∨ y ≤ productOut (virtualX x y n d) (virtualY x y n d) a then
        .error .none
      else .ok (productOut (virtualX x y n d) (virtualY x y n d) a) := by
  have hadd : checkedAdd 256 (virtualX x y n d) a = some (virtualX x y n d + a) :=
    checkedAdd_eq_some.mpr ⟨by have := h.virtualX_lt; omega, rfl⟩
  have hmul : checkedMul 256 (virtualY x y n d) a = some (virtualY x y n d * a) :=
    checkedMul_eq_some.mpr ⟨h.inputNumerator_lt ha, rfl⟩
  simp only [swapBaseInputWithoutFees, require_pos h.nonzero.1, require_pos h.nonzero.2,
    h.virtualReserves_eq, orNone_some, ok_bind, hadd, hmul]
  by_cases hempty : virtualX x y n d + a = 0
  · rw [if_pos (.inl hempty), hempty]
    rfl
  · rw [show checkedDiv (virtualY x y n d * a) (virtualX x y n d + a) =
        some (productOut (virtualX x y n d) (virtualY x y n d) a) from
      checkedDiv_eq_some.mpr ⟨hempty, rfl⟩, orNone_some, ok_bind]
    by_cases hdrain : y ≤ productOut (virtualX x y n d) (virtualY x y n d) a
    · rw [if_pos (.inr hdrain), require_neg (by omega), error_bind]
    · rw [if_neg (by omega), require_pos (by omega), ok_bind, unwrap_eq_ok, tryFrom_eq_some]
      have hy := h.y_lt
      exact ⟨by omega, rfl⟩

/-- Exact-out refuses an output that the curve or the pool does not hold and an input past
128 bits, nothing else. -/
theorem Admissible.swapBaseOutput_eq (h : Admissible x y n d) (ho : o < 2 ^ 128) :
    swapBaseOutputWithoutFees o x y n d =
      if virtualY x y n d ≤ o ∨ y ≤ o ∨
          2 ^ 128 - 1 < productIn (virtualX x y n d) (virtualY x y n d) o then
        .error .none
      else .ok (productIn (virtualX x y n d) (virtualY x y n d) o) := by
  have hmul : checkedMul 256 (virtualX x y n d) o = some (virtualX x y n d * o) :=
    checkedMul_eq_some.mpr ⟨(Nat.lt_succ_self _).trans (h.outputNumerator_lt ho), rfl⟩
  simp only [swapBaseOutputWithoutFees, require_pos h.nonzero.1, require_pos h.nonzero.2,
    h.virtualReserves_eq, orNone_some, ok_bind, hmul]
  by_cases hheld : o < virtualY x y n d ∧ o < y
  · have hpos : 0 < virtualY x y n d - o := by omega
    simp only [require_pos hheld, ok_bind, checkedSub_eq_some.mpr ⟨hheld.1.le, rfl⟩, orNone_some,
      checkedDiv_eq_some.mpr ⟨hpos.ne', rfl⟩, checkedRem_eq_some.mpr ⟨hpos.ne', rfl⟩,
      roundUpQuotient_eq hpos (h.outputNumerator_lt ho)]
    rw [← productIn]
    by_cases hwide : 2 ^ 128 - 1 < productIn (virtualX x y n d) (virtualY x y n d) o
    · rw [if_pos (.inr (.inr hwide)), require_neg (by omega), error_bind]
    · rw [if_neg (by omega), require_pos (by omega), ok_bind, unwrap_eq_ok, tryFrom_eq_some]
      exact ⟨by omega, rfl⟩
  · rw [require_neg hheld, error_bind, if_pos (by omega)]

/-- **No kernel fails for overflow.** Every product, sum and rounded quotient on the way
fits its width, so a kernel either refuses for a reason it names or returns its value; it
never panics. -/
theorem kernels_never_overflow (x y n d : Nat) (h : Admissible x y n d) :
    x * y < 2 ^ 256 ∧ x * y * d < 2 ^ 256 ∧ virtualX x y n d * n < 2 ^ 256 ∧
      virtualReserves x y n d = some (virtualX x y n d, virtualY x y n d) ∧
      (∀ a, a < 2 ^ 64 →
        virtualX x y n d + a < 2 ^ 256 ∧ virtualY x y n d * a < 2 ^ 256 ∧
        swapBaseInputWithoutFees a x y n d =
          if virtualX x y n d + a = 0 ∨ y ≤ productOut (virtualX x y n d) (virtualY x y n d) a then
            .error .none
          else .ok (productOut (virtualX x y n d) (virtualY x y n d) a)) ∧
      ∀ o, o < 2 ^ 128 →
        virtualX x y n d * o < 2 ^ 256 ∧
        virtualX x y n d * o / (virtualY x y n d - o) + 1 < 2 ^ 256 ∧
        swapBaseOutputWithoutFees o x y n d =
          if virtualY x y n d ≤ o ∨ y ≤ o ∨
              2 ^ 128 - 1 < productIn (virtualX x y n d) (virtualY x y n d) o then
            .error .none
          else .ok (productIn (virtualX x y n d) (virtualY x y n d) o) := by
  refine ⟨h.xy_lt.trans (by norm_num), h.xyd_lt, h.raised_lt, h.virtualReserves_eq, ?_, ?_⟩
  · intro a ha
    exact ⟨by have := h.virtualX_lt; omega, h.inputNumerator_lt ha, h.swapBaseInput_eq ha⟩
  · intro o ho
    have hnum := h.outputNumerator_lt ho
    have hquotient := Nat.div_le_self (virtualX x y n d * o) (virtualY x y n d - o)
    exact ⟨(Nat.lt_succ_self _).trans hnum, (Nat.succ_le_succ hquotient).trans_lt hnum,
      h.swapBaseOutput_eq ho⟩

/-- The widest operands: both reserves and the price at the ends of their types. -/
theorem kernels_never_overflow_widest :
    virtualReserves (2 ^ 64 - 1) (2 ^ 64 - 1) 1 (2 ^ 128 - 1) =
      some (virtualX (2 ^ 64 - 1) (2 ^ 64 - 1) 1 (2 ^ 128 - 1),
        virtualY (2 ^ 64 - 1) (2 ^ 64 - 1) 1 (2 ^ 128 - 1)) :=
  (kernels_never_overflow (2 ^ 64 - 1) (2 ^ 64 - 1) 1 (2 ^ 128 - 1)
    ⟨by norm_num, by norm_num, by norm_num, by norm_num, by norm_num, by norm_num, by norm_num,
      by norm_num⟩).2.2.2.1

/-! ## A balanced pool -/

/-- The square root and both divisions are exact, in whichever terms the ratio is given. -/
theorem virtual_of_balanced (hn : 0 < n) (hd : 0 < d) (hbalanced : y * d = x * n) :
    virtualX x y n d = x ∧ virtualY x y n d = y := by
  have hx : virtualX x y n d = x := by
    have hratio : x * y * d / n = x * x := by
      rw [Nat.mul_assoc, hbalanced, ← Nat.mul_assoc, Nat.mul_div_cancel _ hn]
    rw [virtualX, hratio, Nat.sqrt_eq]
  refine ⟨hx, ?_⟩
  rw [virtualY, hx, ← hbalanced, Nat.mul_div_cancel _ hd]

/-- **On a balanced pool the oracle curve is the constant-product curve.** -/
theorem oracleCurve_eq_constantProduct (x y n d : Nat) (h : Admissible x y n d)
    (hbalanced : y * d = x * n) :
    virtualReserves x y n d = some (x, y) ∧
      (∀ a, 1 ≤ a → a < 2 ^ 64 → ∃ o, swapBaseInputWithoutFees a x y n d = .ok o ∧
        ConstantProductCurve.swapBaseInputWithoutFees a x y = .ok o ∧
        o ≤ y - x * y / (x + a) ∧ y - x * y / (x + a) ≤ o + 1) ∧
      ∀ o, o < y → ∃ a, swapBaseOutputWithoutFees o x y n d = .ok a ∧
        ConstantProductCurve.swapBaseOutputWithoutFees o x y = .ok a := by
  obtain ⟨hx, hy⟩ := virtual_of_balanced h.n_pos h.d_pos hbalanced
  have hpos := h.x_pos
  have hx64 := h.x_lt
  have hy64 := h.y_lt
  refine ⟨by rw [h.virtualReserves_eq, hx, hy], ?_, ?_⟩
  · intro a ha ha64
    have hlt : productOut x y a < y := productOut_lt h.x_pos h.y_pos
    have hfits : a * y < 2 ^ 128 := by
      calc a * y < 2 ^ 64 * 2 ^ 64 := Nat.mul_lt_mul'' ha64 hy64
        _ = 2 ^ 128 := by norm_num
    refine ⟨productOut x y a, ?_, ?_, productOut_near (by omega)⟩
    · rw [h.swapBaseInput_eq ha64, hx, hy, if_neg (by omega)]
    · exact ConstantProductCurve.swapBaseInputWithoutFees_of_fits hfits (by omega) (by omega)
  · intro o ho
    have hfits : x * o < 2 ^ 128 := by
      calc x * o < 2 ^ 64 * 2 ^ 64 := Nat.mul_lt_mul'' hx64 (ho.trans hy64)
        _ = 2 ^ 128 := by norm_num
    have hin : productIn x y o ≤ x * o :=
      (ceilDiv_le_iff (by omega)).mpr (Nat.le_mul_of_pos_right _ (by omega))
    refine ⟨productIn x y o, ?_, ?_⟩
    · rw [h.swapBaseOutput_eq (by omega), hx, hy, if_neg (by omega)]
    · exact ConstantProductCurve.swapBaseOutputWithoutFees_of_fits hfits ho

/-- Ten units against sixteen hundred, the price given in other terms. -/
theorem oracleCurve_eq_constantProduct_pool :
    virtualReserves 10000000000 1600000000 16000000000 100000000000 =
      some (10000000000, 1600000000) :=
  (oracleCurve_eq_constantProduct 10000000000 1600000000 16000000000 100000000000
    ⟨by norm_num, by norm_num, by norm_num, by norm_num, by norm_num, by norm_num, by norm_num,
      by norm_num⟩ (by norm_num)).1

end NomadAmm.Soundness.Kernel

import Mathlib.Analysis.Real.Sqrt
import Mathlib.Data.Nat.Cast.Order.Field
import NomadAmm.Lib.ExactCurve
import NomadAmm.Soundness.Kernel

/-! The integer kernels against the exact curve. The virtual reserves lie below the real
ones, on both sides, and a kernel rounds towards the pool on top of that; so no swap beats
the exact curve through the pool's own depth, and the product of the virtual reserves never
falls. -/

namespace NomadAmm.Soundness.ExactKernel

open Lib.ExactCurve Lib.Rounding OracleCurve Soundness.Kernel

variable {x y n d xV yV a o : Nat}

/-- The oracle price as a real number. -/
noncomputable def price (n d : Nat) : ℝ := n / d

/-- The depth of the exact curve through reserves `x` and `y`: its input reserve. -/
noncomputable def depth (x y n d : Nat) : ℝ := √(x * y / price n d)

theorem price_pos (hn : n ≠ 0) (hd : d ≠ 0) : 0 < price n d := by
  unfold price
  positivity

/-- Its output reserve. -/
theorem price_mul_depth (hn : n ≠ 0) (hd : d ≠ 0) :
    price n d * depth x y n d = √(x * y * price n d) := by
  have hP := price_pos hn hd
  rw [depth, eq_comm, Real.sqrt_eq_iff_mul_self_eq (by positivity) (by positivity)]
  symm
  calc price n d * √(x * y / price n d) * (price n d * √(x * y / price n d))
      = price n d * price n d * (√(x * y / price n d) * √(x * y / price n d)) := by ring
    _ = price n d * price n d * (x * y / price n d) := by rw [Real.mul_self_sqrt (by positivity)]
    _ = x * y * price n d := by field_simp

/-- The integer square root of a truncated quotient is the floor of the real root. -/
theorem sqrt_div_eq_floor {k n : Nat} (hn : 0 < n) : Nat.sqrt (k / n) = ⌊√((k : ℝ) / n)⌋₊ := by
  have hnpos : (0 : ℝ) < n := by exact_mod_cast hn
  rw [eq_comm, Nat.floor_eq_iff (Real.sqrt_nonneg _)]
  constructor
  · exact Real.nat_sqrt_le_real_sqrt.trans (Real.sqrt_le_sqrt Nat.cast_div_le)
  · have hnat : k < (Nat.sqrt (k / n) + 1) ^ 2 * n :=
      Nat.lt_mul_of_div_lt (Nat.lt_succ_sqrt' _) hn
    rw [Real.sqrt_lt' (by positivity), div_lt_iff₀ hnpos]
    exact_mod_cast hnat

theorem virtualX_eq_floor (hn : n ≠ 0) (hd : d ≠ 0) : virtualX x y n d = ⌊depth x y n d⌋₊ := by
  have hratio : (x * y / price n d : ℝ) = ((x * y * d : ℕ) : ℝ) / n := by
    unfold price
    push_cast
    field_simp
  rw [depth, hratio, virtualX, sqrt_div_eq_floor (Nat.pos_of_ne_zero hn)]

/-- Both virtual reserves lie below those of the exact curve. -/
structure Below (x y n d xV yV : Nat) : Prop where
  input : (xV : ℝ) ≤ depth x y n d
  output : (yV : ℝ) ≤ price n d * xV
  price_pos : 0 < price n d

theorem virtual_below (hn : n ≠ 0) (hd : d ≠ 0) :
    Below x y n d (virtualX x y n d) (virtualY x y n d) := by
  refine ⟨?_, ?_, price_pos hn hd⟩
  · rw [virtualX_eq_floor hn hd]
    exact Nat.floor_le (Real.sqrt_nonneg _)
  · have hdpos : (0 : ℝ) < d := by exact_mod_cast Nat.pos_of_ne_zero hd
    have hnat : virtualY x y n d * d ≤ virtualX x y n d * n := Nat.div_mul_le_self _ _
    have hreal : (virtualY x y n d * d : ℝ) ≤ virtualX x y n d * n := by exact_mod_cast hnat
    rw [price, div_mul_eq_mul_div, le_div_iff₀ hdpos]
    linarith

/-- The virtual product never exceeds the real one. -/
theorem virtual_product_le (hd : 0 < d) : virtualX x y n d * virtualY x y n d ≤ x * y := by
  refine Nat.le_of_mul_le_mul_right ?_ hd
  calc virtualX x y n d * virtualY x y n d * d
      = virtualX x y n d * (virtualY x y n d * d) := by ring
    _ ≤ virtualX x y n d * (virtualX x y n d * n) :=
        Nat.mul_le_mul_left _ (Nat.div_mul_le_self _ _)
    _ = virtualX x y n d * virtualX x y n d * n := by ring
    _ ≤ x * y * d := virtualX_sq_mul_le x y n d

/-- The derived reserve loses less than one price to the root and one unit to its own
division. -/
theorem virtualY_bounds (hn : n ≠ 0) (hd : d ≠ 0) :
    √(x * y * price n d) - price n d - 1 < virtualY x y n d ∧
      (virtualY x y n d : ℝ) ≤ √(x * y * price n d) := by
  have hbelow := virtual_below (x := x) (y := y) hn hd
  have hP := hbelow.price_pos
  rw [← price_mul_depth hn hd]
  constructor
  · have hroot : depth x y n d < virtualX x y n d + 1 := by
      rw [virtualX_eq_floor hn hd]
      exact Nat.lt_floor_add_one _
    have hdpos : (0 : ℝ) < d := by exact_mod_cast Nat.pos_of_ne_zero hd
    have hnat : virtualX x y n d * n < (virtualY x y n d + 1) * d :=
      Nat.lt_mul_of_div_lt (Nat.lt_succ_self _) (Nat.pos_of_ne_zero hd)
    have hreal : (virtualX x y n d * n : ℝ) < (virtualY x y n d + 1) * d := by exact_mod_cast hnat
    have hderived : price n d * virtualX x y n d < virtualY x y n d + 1 := by
      rw [price, div_mul_eq_mul_div, div_lt_iff₀ hdpos]
      linarith
    have hscaled : price n d * depth x y n d < price n d * (virtualX x y n d + 1) :=
      mul_lt_mul_of_pos_left hroot hP
    linarith
  · exact hbelow.output.trans (mul_le_mul_of_nonneg_left hbelow.input hP.le)

/-! ## The kernels on virtual reserves below the exact curve -/

/-- Exact-in keeps the product and pays no more than the exact curve. -/
theorem productOut_exact (h : Below x y n d xV yV) (hpos : 0 < xV + a) :
    (xV * yV : ℝ) ≤ (xV + a) * (yV - productOut xV yV a) ∧
      (productOut xV yV a * (depth x y n d + a) : ℝ) ≤ price n d * depth x y n d * a ∧
      (productOut xV yV a : ℝ) ≤ price n d * a := by
  have hnat : productOut xV yV a * (xV + a) ≤ yV * a := Nat.div_mul_le_self _ _
  have hreal : (productOut xV yV a * (xV + a) : ℝ) ≤ yV * a := by exact_mod_cast hnat
  have hposR : (0 : ℝ) < xV + a := by exact_mod_cast hpos
  have hP := h.price_pos.le
  have ha : (0 : ℝ) ≤ a := Nat.cast_nonneg a
  have hshallow : (productOut xV yV a : ℝ) ≤ exactOut (price n d) xV a := by
    rw [le_exactOut_iff hposR]
    exact hreal.trans (mul_le_mul_of_nonneg_right h.output ha)
  have hdepth : (0 : ℝ) < depth x y n d + a := hposR.trans_le (by linarith [h.input])
  have hexact := hshallow.trans (exactOut_mono hP ha h.input hposR)
  exact ⟨by linarith, (le_exactOut_iff hdepth).mp hexact, hexact.trans (exactOut_le hP ha hdepth)⟩

/-- Exact-out keeps the product and asks no less than the exact curve. -/
theorem productIn_exact (h : Below x y n d xV yV) (ho : o < yV) :
    (xV * yV : ℝ) ≤ (xV + productIn xV yV o) * (yV - o) ∧
      (o : ℝ) < price n d * depth x y n d ∧
      (depth x y n d * o : ℝ) ≤ productIn xV yV o * (price n d * depth x y n d - o) ∧
      (o : ℝ) ≤ price n d * productIn xV yV o := by
  have hnat : xV * o ≤ productIn xV yV o * (yV - o) := le_ceilDiv_mul _ (by omega)
  have hreal : (xV * o : ℝ) ≤ productIn xV yV o * (yV - o) := by
    rw [← Nat.cast_sub ho.le]
    exact_mod_cast hnat
  have hoR : (o : ℝ) < yV := by exact_mod_cast ho
  have ho0 : (0 : ℝ) ≤ o := Nat.cast_nonneg o
  have hP := h.price_pos.le
  have hshallow : exactIn (price n d) xV o ≤ productIn xV yV o := by
    rw [exactIn_le_iff (hoR.trans_le h.output)]
    exact hreal.trans (mul_le_mul_of_nonneg_left (by linarith [h.output]) (Nat.cast_nonneg _))
  have hdeep : (o : ℝ) < price n d * depth x y n d :=
    (hoR.trans_le h.output).trans_le (mul_le_mul_of_nonneg_left h.input hP)
  have hexact := (exactIn_anti hP ho0 h.input (hoR.trans_le h.output)).trans hshallow
  exact ⟨by linarith, hdeep, (exactIn_le_iff hdeep).mp hexact,
    (le_mul_exactIn ho0 hdeep).trans (mul_le_mul_of_nonneg_left hexact hP)⟩

/-- **The integer kernel never beats the exact curve.** -/
theorem kernel_le_exactCurve (x y n d xV yV : Nat)
    (hv : virtualReserves x y n d = some (xV, yV)) :
    xV = ⌊depth x y n d⌋₊ ∧ xV * yV ≤ x * y ∧
      √(x * y * price n d) - price n d - 1 < yV ∧ (yV : ℝ) ≤ √(x * y * price n d) ∧
      (∀ dx dy, swapBaseInputWithoutFees dx x y n d = .ok dy →
        (xV * yV : ℝ) ≤ (xV + dx) * (yV - dy) ∧
        (dy * (depth x y n d + dx) : ℝ) ≤ price n d * depth x y n d * dx ∧
        (dy : ℝ) ≤ price n d * dx) ∧
      (∀ dy dx, swapBaseOutputWithoutFees dy x y n d = .ok dx →
        (xV * yV : ℝ) ≤ (xV + dx) * (yV - dy) ∧
        (dy : ℝ) < price n d * depth x y n d ∧
        (depth x y n d * dy : ℝ) ≤ dx * (price n d * depth x y n d - dy) ∧
        (dy : ℝ) ≤ price n d * dx ∧ (1 ≤ dy → 1 ≤ dx)) := by
  obtain ⟨-, -, hn, hd, -, hxV, hyV⟩ := virtualReserves_eq_some.mp hv
  obtain rfl : xV = virtualX x y n d := hxV
  obtain rfl : yV = virtualY x y n d := by rw [hyV]; rfl
  have hbelow := virtual_below (x := x) (y := y) hn hd
  obtain ⟨hlow, hhigh⟩ := virtualY_bounds (x := x) (y := y) hn hd
  refine ⟨virtualX_eq_floor hn hd, virtual_product_le (Nat.pos_of_ne_zero hd), hlow, hhigh, ?_, ?_⟩
  · intro dx dy h
    obtain ⟨xV, yV, hv', hpos, rfl, -⟩ := swapBaseInputWithoutFees_spec h
    obtain ⟨rfl, rfl⟩ := Prod.mk.inj (Option.some.inj (hv.symm.trans hv'))
    exact productOut_exact hbelow hpos
  · intro dy dx h
    obtain ⟨xV, yV, hv', hheld, -, rfl⟩ := swapBaseOutputWithoutFees_spec h
    obtain ⟨rfl, rfl⟩ := Prod.mk.inj (Option.some.inj (hv.symm.trans hv'))
    obtain ⟨hproduct, hdeep, hexact, hspot⟩ := productIn_exact hbelow hheld
    refine ⟨hproduct, hdeep, hexact, hspot, ?_⟩
    intro hdy
    by_contra hfree
    obtain hzero : productIn (virtualX x y n d) (virtualY x y n d) dy = 0 := by omega
    rw [hzero, Nat.cast_zero, mul_zero] at hspot
    have hdyR : (1 : ℝ) ≤ dy := by exact_mod_cast hdy
    linarith

/-- A pool at 0.16, whose reserves are those of its curve. -/
theorem kernel_le_exactCurve_pool :
    virtualReserves 10000000000 1600000000 16 100 = some (10000000000, 1600000000) ∧
      10000000000 = ⌊depth 10000000000 1600000000 16 100⌋₊ := by
  have hv : virtualReserves 10000000000 1600000000 16 100 = some (10000000000, 1600000000) := by
    decide +kernel
  exact ⟨hv, (kernel_le_exactCurve 10000000000 1600000000 16 100 10000000000 1600000000
    hv).1⟩

end NomadAmm.Soundness.ExactKernel

import Mathlib.Algebra.Order.Floor.Div
import Mathlib.Order.GaloisConnection.Basic
import Mathlib.Tactic.Ring
import Mathlib.Tactic.Linarith

/-! Integer quotients as the two ends of Galois connections. A floor quotient is
an upper adjoint of a multiplication, a ceiling quotient a lower adjoint; fees
and constant-product legs are compositions of such quotients, so an exact-in
computation and its exact-out inverse meet without a rounding gap. -/

namespace NomadAmm.Lib.Rounding

/-- Round `n / d` up, spelled with the floor division of the machine. -/
def ceilDiv (n d : Nat) : Nat := (n + d - 1) / d

theorem ceilDiv_le_iff {n d k : Nat} (hd : 0 < d) : ceilDiv n d ≤ k ↔ n ≤ k * d := by
  rw [ceilDiv, ← Nat.ceilDiv_eq_add_pred_div, ceilDiv_le_iff_le_mul hd, Nat.mul_comm]

theorem le_ceilDiv_mul (n : Nat) {d : Nat} (hd : 0 < d) : n ≤ ceilDiv n d * d :=
  (ceilDiv_le_iff hd).mp le_rfl

/-- Rounding up is the floor plus one exactly when something is left over. -/
theorem ceilDiv_eq (n : Nat) {d : Nat} (hd : 0 < d) :
    ceilDiv n d = if n % d = 0 then n / d else n / d + 1 := by
  have hn := Nat.div_add_mod n d
  have hm := Nat.mod_lt n hd
  have hbase : n + d - 1 = (n % d + d - 1) + d * (n / d) := by omega
  rw [ceilDiv, hbase, Nat.add_mul_div_left _ _ hd]
  split
  · next h =>
    rw [h, Nat.zero_add, Nat.div_eq_of_lt (by omega)]
    omega
  · next h =>
    have hone : (n % d + d - 1) / d = 1 := by
      rw [Nat.div_eq_iff hd]
      omega
    omega

/-- Nothing is rounded exactly when nothing is left over. -/
theorem ceilDiv_eq_div_iff {n d : Nat} (hd : 0 < d) : ceilDiv n d = n / d ↔ d ∣ n := by
  rw [ceilDiv_eq n hd, Nat.dvd_iff_mod_eq_zero]
  by_cases hr : n % d = 0
  · simp only [hr, if_true]
  · simp only [hr, if_false, iff_false]
    omega

/-- A share of at most everything is at most everything, rounded up too. -/
theorem ceilDiv_mul_le {k n d : Nat} (hd : 0 < d) (hk : k ≤ d) : ceilDiv (k * n) d ≤ n := by
  rw [ceilDiv_le_iff hd, Nat.mul_comm n]
  exact Nat.mul_le_mul_right n hk

/-! ## A fee of `r` in `D`, rounded up -/

/-- What a payer keeps of `a` after a fee of `r / D`, rounded against the payer. -/
def lessFee (D r a : Nat) : Nat := a * (D - r) / D

/-- The least amount that still leaves `s` after the fee. -/
def grossUp (D r s : Nat) : Nat := ceilDiv (s * D) (D - r)

theorem gc_fee {D r : Nat} (hr : r < D) : GaloisConnection (grossUp D r) (lessFee D r) := by
  intro s a
  rw [grossUp, lessFee, ceilDiv_le_iff (by omega), Nat.le_div_iff_mul_le (by omega)]

/-- Charging the ceiling of the fee leaves the floor of the remainder. -/
theorem sub_fee_eq_lessFee {D r : Nat} (hD : 0 < D) (hr : r ≤ D) (a : Nat) :
    a - ceilDiv (a * r) D = lessFee D r a := by
  obtain ⟨k, rfl⟩ : ∃ k, D = r + k := ⟨D - r, by omega⟩
  have hle : ceilDiv (a * r) (r + k) ≤ a := by
    rw [ceilDiv_le_iff hD]
    exact Nat.mul_le_mul_left _ (by omega)
  have hgal : ∀ b, b ≤ a → (a - b ≤ lessFee (r + k) r a ↔ ceilDiv (a * r) (r + k) ≤ b) := by
    intro b hb
    rw [lessFee, Nat.le_div_iff_mul_le hD, ceilDiv_le_iff hD]
    obtain ⟨c, rfl⟩ : ∃ c, a = b + c := ⟨a - b, by omega⟩
    rw [show b + c - b = c by omega, show r + k - r = k by omega]
    constructor <;> intro h <;> nlinarith
  apply le_antisymm
  · exact (hgal _ hle).mpr le_rfl
  · have hl : lessFee (r + k) r a ≤ a := by
      rw [lessFee]
      exact Nat.div_le_of_le_mul (by rw [Nat.mul_comm]; exact Nat.mul_le_mul_right _ (by omega))
    have := (hgal (a - lessFee (r + k) r a) (by omega)).mp (by omega)
    omega

theorem fee_le {D r : Nat} (hD : 0 < D) (hr : r ≤ D) (a : Nat) : ceilDiv (a * r) D ≤ a := by
  rw [ceilDiv_le_iff hD]
  exact Nat.mul_le_mul_left _ hr

/-- The remainder after a rounded-up fee, for any rate. -/
theorem sub_ceilDiv_mul_le {D : Nat} (hD : 0 < D) (r a : Nat) :
    (a - ceilDiv (a * r) D) * D ≤ a * (D - r) := by
  have h := le_ceilDiv_mul (a * r) hD
  rw [Nat.sub_mul, Nat.mul_sub]
  omega

theorem grossUp_zero {D : Nat} (hD : 0 < D) (s : Nat) : grossUp D 0 s = s := by
  rw [grossUp, Nat.sub_zero]
  apply le_antisymm
  · exact (ceilDiv_le_iff hD).mpr le_rfl
  · exact Nat.le_of_mul_le_mul_right (le_ceilDiv_mul (s * D) hD) hD

theorem lessFee_mul_le (D r a : Nat) : lessFee D r a * D ≤ a * (D - r) :=
  Nat.div_mul_le_self _ _

theorem lessFee_le (D r a : Nat) : lessFee D r a ≤ a := by
  rw [lessFee]
  exact Nat.div_le_of_le_mul (by rw [Nat.mul_comm]; exact Nat.mul_le_mul_right _ (by omega))

/-- Two amounts taken apart keep no more than their sum does. -/
theorem lessFee_add_le (D r a b : Nat) : lessFee D r a + lessFee D r b ≤ lessFee D r (a + b) := by
  rw [lessFee, lessFee, lessFee, Nat.add_mul]
  exact Nat.div_add_div_le_add_div

/-- Grossing up and charging again lands exactly on the amount started from. -/
theorem lessFee_grossUp {D r : Nat} (hr : r < D) (s : Nat) : lessFee D r (grossUp D r s) = s := by
  apply le_antisymm
  · by_contra hlt
    have hlt : s + 1 ≤ lessFee D r (grossUp D r s) := by omega
    have hup := (gc_fee hr (s + 1) _).mpr hlt
    have hmul : (s + 1) * D ≤ grossUp D r s * (D - r) := (ceilDiv_le_iff (by omega)).mp hup
    have hfl : grossUp D r s * (D - r) ≤ s * D + (D - r) - 1 := Nat.div_mul_le_self _ _
    rw [Nat.add_mul] at hmul
    omega
  · exact (gc_fee hr).le_u_l s

/-! ## A constant-product leg -/

/-- Output of `a` on reserves `(x, y)`, rounded down. -/
def productOut (x y a : Nat) : Nat := y * a / (x + a)

/-- Input that `o` costs on reserves `(x, y)`, rounded up. -/
def productIn (x y o : Nat) : Nat := ceilDiv (x * o) (y - o)

/-- Below the output reserve the two legs are adjoint. -/
theorem productIn_le_iff {x y o a : Nat} (ho : o < y) (hxa : 0 < x + a) :
    productIn x y o ≤ a ↔ o ≤ productOut x y a := by
  obtain ⟨k, rfl⟩ : ∃ k, y = o + k := ⟨y - o, by omega⟩
  rw [productIn, productOut, ceilDiv_le_iff (by omega), Nat.le_div_iff_mul_le hxa]
  rw [show o + k - o = k by omega]
  constructor <;> intro h <;> nlinarith

theorem productOut_lt {x y a : Nat} (hx : 0 < x) (hy : 0 < y) : productOut x y a < y := by
  rw [productOut, Nat.div_lt_iff_lt_mul (by omega)]
  nlinarith

/-- What is left of the output reserve, up to the rounding. -/
theorem productOut_near {x y a : Nat} (hpos : 0 < x + a) :
    productOut x y a ≤ y - x * y / (x + a) ∧ y - x * y / (x + a) ≤ productOut x y a + 1 := by
  have hout : productOut x y a * (x + a) ≤ y * a := Nat.div_mul_le_self _ _
  have hout' : y * a < (productOut x y a + 1) * (x + a) :=
    Nat.lt_mul_of_div_lt (Nat.lt_succ_self _) hpos
  have hrest : x * y / (x + a) * (x + a) ≤ x * y := Nat.div_mul_le_self _ _
  have hrest' : x * y < (x * y / (x + a) + 1) * (x + a) :=
    Nat.lt_mul_of_div_lt (Nat.lt_succ_self _) hpos
  have hsum : (productOut x y a + x * y / (x + a)) * (x + a) ≤ y * (x + a) := by linarith
  have hsum' : y * (x + a) < (productOut x y a + x * y / (x + a) + 2) * (x + a) := by linarith
  have hle := Nat.le_of_mul_le_mul_right hsum hpos
  have hlt := Nat.lt_of_mul_lt_mul_right hsum'
  omega

/-- No output beats the marginal price `n / d` of reserves with `y / x ≤ n / d`. -/
theorem productOut_mul_le {x y n d a : Nat} (hxa : 0 < x + a) (h : y * d ≤ x * n) :
    productOut x y a * d ≤ a * n := by
  have h1 : productOut x y a * (x + a) ≤ y * a := Nat.div_mul_le_self _ _
  have h2 : productOut x y a * d * (x + a) ≤ a * n * (x + a) := by
    calc productOut x y a * d * (x + a) = productOut x y a * (x + a) * d := by ring
      _ ≤ y * a * d := Nat.mul_le_mul_right _ h1
      _ = y * d * a := by ring
      _ ≤ x * n * a := Nat.mul_le_mul_right _ h
      _ ≤ a * n * (x + a) := by nlinarith [Nat.zero_le (a * n * a)]
  exact Nat.le_of_mul_le_mul_right h2 hxa

/-- No output costs less than the marginal price asks for it. -/
theorem mul_le_productIn_mul {x y n d o : Nat} (ho : o < y) (h : y * d ≤ x * n) :
    o * d ≤ productIn x y o * n := by
  have h1 : x * o ≤ productIn x y o * (y - o) := le_ceilDiv_mul _ (by omega)
  have h2 : o * d * (y - o) ≤ productIn x y o * n * (y - o) := by
    calc o * d * (y - o) ≤ o * d * y := Nat.mul_le_mul_left _ (Nat.sub_le _ _)
      _ = o * (y * d) := by ring
      _ ≤ o * (x * n) := Nat.mul_le_mul_left _ h
      _ = x * o * n := by ring
      _ ≤ productIn x y o * (y - o) * n := Nat.mul_le_mul_right _ h1
      _ = productIn x y o * n * (y - o) := by ring
  exact Nat.le_of_mul_le_mul_right h2 (by omega)

end NomadAmm.Lib.Rounding
